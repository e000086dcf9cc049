import Interleave.Proofs.Deposits.Protocol

namespace Interleave.Deposits

inductive Customer
  | begins (grant : Address)
  | acquires (grant : Address)
  | waits (grant : Address) (granted : Bool)
  | opens
  | inquires (reply : Address)
  | reads (reply : Address) (answer : Option Nat)
  | stores (balance : Nat)
  | releases
  | ends
  | leaves
  | gone

inductive Keeper
  | begins
  | receives (queue : List Address)
  | grants (next : Address) (rest : List Address)
  | ends
  | leaves
  | gone

inductive Teller
  | begins
  | receives (balance : Nat)
  | answers (reply : Address) (balance : Nat)
  | ends
  | leaves
  | gone

inductive Audit
  | createsLock
  | createsAccount
  | creates (made : List Address)
  | joins (next : Address) (rest : List Address)
  | opens
  | inquires (reply : Address)
  | reads (reply : Address) (answer : Option Nat)
  | closesAccount (balance : Nat)
  | closesLock (balance : Nat)
  | ends
  | leaves
  | gone

namespace Customer

def standing : Customer → Standing
  | begins _ | acquires _ => .outside
  | waits grant false => .queued grant
  | waits _ true | opens | inquires _ => .admitted
  | reads reply none => .asking reply
  | reads _ (some balance) | stores balance => .told balance
  | releases => .paid
  | ends | leaves | gone => .done

/-- What a depositor does on its own. -/
inductive Moves : Customer → Customer → Prop
  | acquire (grant : Address) : Moves (begins grant) (acquires grant)
  | enter (grant : Address) : Moves (waits grant true) opens
  | inquire (reply : Address) : Moves opens (inquires reply)
  | store (reply : Address) (balance : Nat) : Moves (reads reply (some balance)) (stores balance)
  | leave : Moves ends leaves
  | vanish : Moves leaves gone

theorem Moves.standing_eq {before after : Customer} (moves : before.Moves after) :
    after.standing = before.standing := by
  cases moves <;> rfl

/-- How many steps are left, with those that the servers make for a message that is not sent yet. -/
def work : Customer → Nat
  | begins _ => 16
  | acquires _ => 15
  | waits .. => 12
  | opens => 11
  | inquires _ => 10
  | reads .. => 7
  | stores _ => 6
  | releases => 4
  | ends => 2
  | leaves => 1
  | gone => 0

end Customer

namespace Keeper

def desk : Keeper → Desk
  | begins => .serving []
  | receives queue => .serving queue
  | grants next rest => .granting next rest
  | ends | leaves | gone => .closed

inductive Moves : Keeper → Keeper → Prop
  | receive : Moves begins (receives [])
  | leave : Moves ends leaves
  | vanish : Moves leaves gone

theorem Moves.desk_eq {before after : Keeper} (moves : before.Moves after) :
    after.desk = before.desk := by
  cases moves <;> rfl

def work : Keeper → Nat
  | begins => 3
  | receives queue => 2 + queue.tail.length
  | grants _ rest => 3 + rest.length
  | ends => 2
  | leaves => 1
  | gone => 0

def isOver : Keeper → Bool
  | ends | leaves | gone => true
  | begins | receives _ | grants .. => false

end Keeper

namespace Teller

def window : Teller → Window
  | begins => .serving 0
  | receives balance => .serving balance
  | answers reply balance => .answering reply balance
  | ends | leaves | gone => .closed

inductive Moves : Teller → Teller → Prop
  | receive : Moves begins (receives 0)
  | leave : Moves ends leaves
  | vanish : Moves leaves gone

theorem Moves.window_eq {before after : Teller} (moves : before.Moves after) :
    after.window = before.window := by
  cases moves <;> rfl

def work : Teller → Nat
  | begins => 3
  | receives _ => 2
  | answers .. => 3
  | ends => 2
  | leaves => 1
  | gone => 0

def isOver : Teller → Bool
  | ends | leaves | gone => true
  | begins | receives _ | answers .. => false

end Teller

namespace Audit

def review : Audit → Review
  | reads reply none => .asking reply
  | reads _ (some _) | closesAccount _ | closesLock _ | ends | leaves | gone => .complete
  | createsLock | createsAccount | creates _ | joins .. | opens | inquires _ => .ahead

inductive Moves : Audit → Audit → Prop
  | inquire (reply : Address) : Moves opens (inquires reply)
  | close (reply : Address) (balance : Nat) :
      Moves (reads reply (some balance)) (closesAccount balance)
  | leave : Moves ends leaves
  | vanish : Moves leaves gone

theorem Moves.review_eq {before after : Audit} (moves : before.Moves after) :
    after.review = before.review := by
  cases moves <;> rfl

def joining : List Address → Audit
  | [] => opens
  | next :: rest => joins next rest

def creating (depositors : Nat) (made : List Address) : Audit :=
  if made.length < depositors then creates made else joining made

def balance? : Audit → Option Nat
  | reads _ answer => answer
  | closesAccount balance | closesLock balance => some balance
  | _ => none

def hasCreatedLock : Audit → Bool
  | createsLock => false
  | _ => true

def hasCreatedAccount : Audit → Bool
  | createsLock | createsAccount => false
  | _ => true

def hasClosedAccount : Audit → Bool
  | closesLock _ | ends | leaves | gone => true
  | _ => false

def hasClosedLock : Audit → Bool
  | ends | leaves | gone => true
  | _ => false

def isLate : Audit → Bool
  | createsLock | createsAccount | creates _ | joins .. => false
  | _ => true

@[simp] theorem hasCreated_joining (rest : List Address) :
    (joining rest).hasCreatedLock = true ∧ (joining rest).hasCreatedAccount = true := by
  cases rest <;> exact ⟨rfl, rfl⟩

@[simp] theorem hasCreated_creating (depositors : Nat) (made : List Address) :
    (creating depositors made).hasCreatedLock = true ∧
      (creating depositors made).hasCreatedAccount = true := by
  unfold creating
  split
  · exact ⟨rfl, rfl⟩
  · exact hasCreated_joining made

@[simp] theorem hasClosed_joining (rest : List Address) :
    (joining rest).hasClosedLock = false ∧ (joining rest).hasClosedAccount = false := by
  cases rest <;> exact ⟨rfl, rfl⟩

@[simp] theorem hasClosed_creating (depositors : Nat) (made : List Address) :
    (creating depositors made).hasClosedLock = false ∧
      (creating depositors made).hasClosedAccount = false := by
  unfold creating
  split
  · exact ⟨rfl, rfl⟩
  · exact hasClosed_joining made

def work (depositors : Nat) : Audit → Nat
  | createsLock => 18 * depositors + 19
  | createsAccount => 18 * depositors + 15
  | creates made => 11 + depositors + 17 * (depositors - made.length)
  | joins _ rest => 12 + rest.length
  | opens => 11
  | inquires _ => 10
  | reads .. => 7
  | closesAccount _ => 6
  | closesLock _ => 4
  | ends => 2
  | leaves => 1
  | gone => 0

@[simp] theorem review_joining (rest : List Address) : (joining rest).review = .ahead := by
  cases rest <;> rfl

@[simp] theorem review_creating (depositors : Nat) (made : List Address) :
    (creating depositors made).review = .ahead := by
  unfold creating
  split
  · rfl
  · exact review_joining made

theorem review_of_hasClosedAccount {audit : Audit} (closed : audit.hasClosedAccount = true) :
    audit.review = .complete := by
  cases audit <;> first | rfl | cases closed

theorem review_of_hasClosedLock {audit : Audit} (closed : audit.hasClosedLock = true) :
    audit.review = .complete := by
  cases audit <;> first | rfl | cases closed

@[simp] theorem balance?_joining (rest : List Address) : (joining rest).balance? = none := by
  cases rest <;> rfl

@[simp] theorem balance?_creating (depositors : Nat) (made : List Address) :
    (creating depositors made).balance? = none := by
  unfold creating
  split
  · rfl
  · exact balance?_joining made

theorem Moves.work_lt {before after : Audit} (moves : before.Moves after) (depositors : Nat) :
    after.work depositors < before.work depositors := by
  cases moves <;> simp [work]

@[simp] theorem work_joining (depositors : Nat) (rest : List Address) :
    (joining rest).work depositors = 11 + rest.length := by
  cases rest with
  | nil => rfl
  | cons next rest =>
      simp only [joining, work, List.length_cons]
      omega

theorem work_creating {depositors : Nat} {made : List Address} (few : made.length ≤ depositors) :
    (creating depositors made).work depositors =
      11 + depositors + 17 * (depositors - made.length) := by
  unfold creating
  split
  · rfl
  · rw [work_joining]
    omega

end Audit

def Request.work : Request → Nat
  | acquire _ => 2
  | release => 1

structure Bank where
  audit : Audit
  keeper : Option Keeper
  teller : Option Teller
  customers : List Customer
  requests : List Request
  lockClosed : Bool
  stored : Option Nat
  question : Option Address
  accountClosed : Bool

namespace Bank

def start : Bank := ⟨.createsLock, none, none, [], [], false, none, none, false⟩

/-- A server that has not been created yet is as good as one that has not received anything. -/
def protocol (bank : Bank) : Protocol where
  standings := bank.customers.map Customer.standing
  review := bank.audit.review
  desk := (bank.keeper.map Keeper.desk).getD (.serving [])
  requests := bank.requests
  window := (bank.teller.map Teller.window).getD (.serving 0)
  stored := bank.stored
  question := bank.question

/-- A bound on the steps that are left, with those for the messages that are under way. -/
def work (depositors : Nat) (bank : Bank) : Nat :=
  bank.audit.work depositors + (bank.keeper.map Keeper.work).getD 0 +
    (bank.teller.map Teller.work).getD 0 + tally (fun _ => Customer.work) bank.customers +
    tally (fun _ => Request.work) bank.requests + bank.stored.toList.length +
    2 * bank.question.toList.length + bank.lockClosed.toNat + bank.accountClosed.toNat

inductive Step (depositors : Nat) (bank : Bank) : Option Event → Bank → Prop
  | keeper {before after : Keeper} (there : bank.keeper = some before) (moves : before.Moves after) :
      Step depositors bank none { bank with keeper := some after }
  | accept {grant : Address} {rest : List Request} (there : bank.keeper = some (.receives []))
      (first : bank.requests = .acquire grant :: rest) :
      Step depositors bank none { bank with keeper := some (.grants grant []), requests := rest }
  | enqueue {holder grant : Address} {queue : List Address} {rest : List Request}
      (there : bank.keeper = some (.receives (holder :: queue)))
      (first : bank.requests = .acquire grant :: rest) :
      Step depositors bank none { bank with
        keeper := some (.receives (holder :: queue ++ [grant]))
        requests := rest }
  | handOver {holder next : Address} {queue : List Address} {rest : List Request}
      (there : bank.keeper = some (.receives (holder :: next :: queue)))
      (first : bank.requests = .release :: rest) :
      Step depositors bank none { bank with keeper := some (.grants next queue), requests := rest }
  | idle {holder : Address} {rest : List Request}
      (there : bank.keeper = some (.receives [holder]))
      (first : bank.requests = .release :: rest) :
      Step depositors bank none { bank with keeper := some (.receives []), requests := rest }
  | grant {index : Nat} {next : Address} {queue : List Address}
      (due : bank.keeper = some (.grants next queue))
      (there : bank.customers[index]? = some (.waits next false)) :
      Step depositors bank (some (.grants (client index))) { bank with
        keeper := some (.receives (next :: queue))
        customers := bank.customers.set index (.waits next true) }
  | closeLock {queue : List Address} (there : bank.keeper = some (.receives queue))
      (calm : bank.requests = []) (closed : bank.lockClosed = true) :
      Step depositors bank none { bank with keeper := some .ends, lockClosed := false }
  | teller {before after : Teller} (there : bank.teller = some before) (moves : before.Moves after) :
      Step depositors bank none { bank with teller := some after }
  | credit {balance amount : Nat} (there : bank.teller = some (.receives balance))
      (first : bank.stored = some amount) :
      Step depositors bank none { bank with teller := some (.receives amount), stored := none }
  | attend {balance : Nat} {reply : Address} (there : bank.teller = some (.receives balance))
      (settled : bank.stored = none) (first : bank.question = some reply) :
      Step depositors bank none { bank with
        teller := some (.answers reply balance)
        question := none }
  | tell {index balance : Nat} {reply : Address}
      (due : bank.teller = some (.answers reply balance))
      (there : bank.customers[index]? = some (.reads reply none)) :
      Step depositors bank (some (.answers (client index) balance)) { bank with
        teller := some (.receives balance)
        customers := bank.customers.set index (.reads reply (some balance)) }
  | report {balance : Nat} {reply : Address} (due : bank.teller = some (.answers reply balance))
      (there : bank.audit = .reads reply none) :
      Step depositors bank (some (.answers .root balance)) { bank with
        teller := some (.receives balance)
        audit := .reads reply (some balance) }
  | closeAccount {balance : Nat} (there : bank.teller = some (.receives balance))
      (settled : bank.stored = none) (silent : bank.question = none)
      (closed : bank.accountClosed = true) :
      Step depositors bank none { bank with teller := some .ends, accountClosed := false }
  | customer {index : Nat} {before after : Customer} (there : bank.customers[index]? = some before)
      (moves : before.Moves after) :
      Step depositors bank none { bank with customers := bank.customers.set index after }
  | acquire {index : Nat} {grant : Address} (there : bank.customers[index]? = some (.acquires grant))
      (owner : grant.owner = client index) :
      Step depositors bank none { bank with
        customers := bank.customers.set index (.waits grant false)
        requests := bank.requests ++ [.acquire grant] }
  | inquire {index : Nat} {reply : Address} (there : bank.customers[index]? = some (.inquires reply))
      (owner : reply.owner = client index) (silent : bank.question = none) :
      Step depositors bank none { bank with
        customers := bank.customers.set index (.reads reply none)
        question := some reply }
  | pay {index balance : Nat} (there : bank.customers[index]? = some (.stores balance))
      (settled : bank.stored = none) (silent : bank.question = none) :
      Step depositors bank (some (.stores (client index) (balance + (index + 1)))) { bank with
        customers := bank.customers.set index .releases
        stored := some (balance + (index + 1)) }
  | release {index : Nat} (there : bank.customers[index]? = some .releases) :
      Step depositors bank (some (.releases (client index))) { bank with
        customers := bank.customers.set index .ends
        requests := bank.requests ++ [.release] }
  | createLock (there : bank.audit = .createsLock) :
      Step depositors bank none { bank with audit := .createsAccount, keeper := some .begins }
  | createAccount (there : bank.audit = .createsAccount) :
      Step depositors bank none { bank with
        audit := .creating depositors []
        teller := some .begins }
  | create {made : List Address} {grant : Address} (there : bank.audit = .creates made)
      (owner : grant.owner = client bank.customers.length) :
      Step depositors bank none { bank with
        audit := .creating depositors (made ++ [grant])
        customers := bank.customers ++ [.begins grant] }
  | join {next : Address} {rest : List Address} {index : Nat} (there : bank.audit = .joins next rest)
      (owner : next.owner = client index) (gone : bank.customers[index]? = some .gone) :
      Step depositors bank none { bank with audit := .joining rest }
  | audit {before after : Audit} (there : bank.audit = before) (moves : before.Moves after) :
      Step depositors bank none { bank with audit := after }
  | ask {reply : Address} (there : bank.audit = .inquires reply) (silent : bank.question = none) :
      Step depositors bank none { bank with audit := .reads reply none, question := some reply }
  | shutAccount {balance : Nat} (there : bank.audit = .closesAccount balance) :
      Step depositors bank none { bank with audit := .closesLock balance, accountClosed := true }
  | shutLock {balance : Nat} (there : bank.audit = .closesLock balance) :
      Step depositors bank none { bank with audit := .ends, lockClosed := true }

end Bank

variable {depositors index first : Nat} {audit other : Audit} {customers : List Customer}
  {before now : Customer} {made rest : List Address}

structure Roll (depositors : Nat) (audit : Audit) (customers : List Customer) : Prop where
  early : audit = .createsLock ∨ audit = .createsAccount → customers = []
  made : ∀ made, audit = .creates made → made.length < depositors ∧
    made.map Address.owner = (List.range customers.length).map client
  joined : ∀ next rest, audit = .joins next rest → ∃ first,
    (next :: rest).map Address.owner = (List.range' first (rest.length + 1)).map client ∧
      first + (rest.length + 1) = depositors ∧ customers.length = depositors ∧
        ∀ index < first, customers[index]? = some .gone
  late : audit.isLate = true →
    customers.length = depositors ∧ ∀ customer ∈ customers, customer = .gone

structure Opened (bank : Bank) : Prop where
  lock : bank.keeper.isSome = bank.audit.hasCreatedLock
  account : bank.teller.isSome = bank.audit.hasCreatedAccount

structure Closed (bank : Bank) : Prop where
  lock : bank.audit.hasClosedLock = (bank.lockClosed || bank.keeper.any Keeper.isOver)
  account : bank.audit.hasClosedAccount = (bank.accountClosed || bank.teller.any Teller.isOver)

/-- Nobody has written to a server that has not been created yet. -/
structure Blank (bank : Bank) : Prop where
  requests : bank.keeper = none → bank.requests = []
  stored : bank.teller = none → bank.stored = none
  question : bank.teller = none → bank.question = none

structure Ordered (depositors : Nat) (bank : Bank) : Prop where
  roll : Roll depositors bank.audit bank.customers
  opened : Opened bank
  closed : Closed bank
  blank : Blank bank

namespace Roll

theorem joining
    (owners : rest.map Address.owner = (List.range' first rest.length).map client)
    (all : first + rest.length = depositors) (present : customers.length = depositors)
    (gone : ∀ index < first, customers[index]? = some .gone) :
    Roll depositors (.joining rest) customers := by
  cases rest with
  | nil =>
      refine ⟨nofun, nofun, nofun, fun _ => ⟨present, ?_⟩⟩
      intro customer member
      obtain ⟨index, found⟩ := List.mem_iff_getElem?.mp member
      have inside := (List.getElem?_eq_some_iff.mp found).1
      rw [gone index (by simp at all; omega)] at found
      exact (Option.some.inj found).symm
  | cons next rest =>
      refine ⟨nofun, nofun, ?_, nofun⟩
      rintro _ _ ⟨⟩
      exact ⟨first, owners, all, present, gone⟩

theorem creating
    (owners : made.map Address.owner = (List.range customers.length).map client)
    (few : made.length ≤ depositors) : Roll depositors (.creating depositors made) customers := by
  have same : made.length = customers.length := by
    simpa using congrArg List.length owners
  unfold Audit.creating
  split
  · rename_i missing
    refine ⟨nofun, ?_, nofun, nofun⟩
    rintro _ ⟨⟩
    exact ⟨missing, owners⟩
  · have all : made.length = depositors := by omega
    rw [List.range_eq_range', ← same] at owners
    exact joining owners (by omega) (by omega) fun index impossible => by omega

variable (roll : Roll depositors audit customers)

include roll

theorem length_le : customers.length ≤ depositors := by
  cases stage : audit with
  | createsLock => rw [roll.early (.inl stage)]; exact Nat.zero_le _
  | createsAccount => rw [roll.early (.inr stage)]; exact Nat.zero_le _
  | creates made =>
      obtain ⟨few, owners⟩ := roll.made made stage
      have same : made.length = customers.length := by
        simpa using congrArg List.length owners
      omega
  | joins next rest =>
      obtain ⟨first, -, -, present, -⟩ := roll.joined next rest stage
      exact Nat.le_of_eq present
  | _ => exact Nat.le_of_eq (roll.late (by rw [stage]; rfl)).1

theorem not_late (there : customers[index]? = some before) (living : before ≠ .gone) :
    audit.isLate = false := by
  rw [← Bool.not_eq_true]
  intro late
  exact living ((roll.late late).2 before (List.mem_of_getElem? there))

theorem set (there : customers[index]? = some before) (living : before ≠ .gone) :
    Roll depositors audit (customers.set index now) where
  early known := by
    rw [roll.early known] at there
    cases there
  made := by
    rw [List.length_set]
    exact roll.made
  joined next rest same := by
    obtain ⟨first, owners, all, present, gone⟩ := roll.joined next rest same
    refine ⟨first, owners, all, by rw [List.length_set, present], ?_⟩
    intro position joined
    have differs : index ≠ position := by
      rintro rfl
      rw [gone index joined] at there
      exact living (Option.some.inj there).symm
    rw [List.getElem?_set_ne differs]
    exact gone position joined
  late known := by
    rw [roll.not_late there living] at known
    cases known

theorem go (late : audit.isLate = true) (still : other.isLate = true) :
    Roll depositors other customers := by
  refine ⟨?_, ?_, ?_, fun _ => roll.late late⟩
  · rintro (rfl | rfl)
    · cases still
    · cases still
  · rintro made rfl
    cases still
  · rintro next rest rfl
    cases still

end Roll

theorem Ordered.created
    {bank : Bank} (ordered : Ordered depositors bank) (there : bank.customers[index]? = some before) :
    bank.keeper ≠ none ∧ bank.teller ≠ none := by
  have late : bank.audit ≠ .createsLock ∧ bank.audit ≠ .createsAccount := by
    rw [← not_or]
    intro early
    rw [ordered.roll.early early] at there
    cases there
  have lock := ordered.opened.lock
  have account := ordered.opened.account
  constructor
  · intro none
    rw [none] at lock
    cases place : bank.audit with
    | createsLock => exact late.1 place
    | _ =>
        rw [place] at lock
        cases lock
  · intro none
    rw [none] at account
    cases place : bank.audit with
    | createsLock => exact late.1 place
    | createsAccount => exact late.2 place
    | _ =>
        rw [place] at account
        cases account

namespace Bank.Step

variable {bank after : Bank} {event : Option Event}

theorem roll
    (step : Step depositors bank event after) (roll : Roll depositors bank.audit bank.customers) :
    Roll depositors after.audit after.customers := by
  cases step with
  | keeper | accept | enqueue | handOver | idle | closeLock | teller | credit | attend
  | closeAccount => exact roll
  | grant due there | tell due there | acquire there owner | inquire there owner | pay there
  | release there => exact roll.set there nofun
  | customer there moves => exact roll.set there (by rintro rfl; cases moves)
  | report due there => exact roll.go (by rw [there]; rfl) rfl
  | createLock there =>
      have none := roll.early (.inl there)
      rw [none]
      exact ⟨fun _ => rfl, nofun, nofun, nofun⟩
  | createAccount there =>
      have none := roll.early (.inr there)
      rw [none]
      exact .creating rfl (Nat.zero_le _)
  | @create made grant there owner =>
      obtain ⟨missing, owners⟩ := roll.made made there
      refine .creating ?_ (by rw [List.length_append]; exact missing)
      simp [List.range_succ, owners, owner]
  | @join next rest index there owner gone =>
      obtain ⟨first, owners, all, present, before⟩ := roll.joined next rest there
      rw [List.range'_succ, List.map_cons, List.map_cons, List.cons_eq_cons] at owners
      have here : index = first := client_injective (owner.symm.trans owners.1)
      subst here
      refine .joining owners.2 (by omega) present ?_
      intro position joined
      rcases Nat.lt_succ_iff_lt_or_eq.mp joined with earlier | rfl
      · exact before position earlier
      · exact gone
  | audit there moves =>
      rw [there] at roll
      cases moves <;> exact roll.go rfl rfl
  | ask there | shutAccount there | shutLock there => exact roll.go (by rw [there]; rfl) rfl

theorem opened (step : Step depositors bank event after) (opened : Opened bank) : Opened after := by
  obtain ⟨lock, account⟩ := opened
  cases step with
  | keeper there | accept there | enqueue there | handOver there | idle there | grant there
  | closeLock there =>
      rw [there] at lock
      exact ⟨lock, account⟩
  | teller there | credit there | attend there | tell there | closeAccount there =>
      rw [there] at account
      exact ⟨lock, account⟩
  | customer | acquire | inquire | pay | release => exact ⟨lock, account⟩
  | report due there =>
      rw [due, there] at account
      rw [there] at lock
      exact ⟨lock, account⟩
  | createLock there | ask there | shutAccount there | shutLock there =>
      rw [there] at lock account
      first | exact ⟨lock, account⟩ | exact ⟨rfl, account⟩
  | createAccount there =>
      rw [there] at lock
      exact ⟨lock.trans (Audit.hasCreated_creating _ _).1.symm,
        (Audit.hasCreated_creating _ _).2.symm⟩
  | create there =>
      rw [there] at lock account
      exact ⟨lock.trans (Audit.hasCreated_creating _ _).1.symm,
        account.trans (Audit.hasCreated_creating _ _).2.symm⟩
  | join there =>
      rw [there] at lock account
      exact ⟨lock.trans (Audit.hasCreated_joining _).1.symm,
        account.trans (Audit.hasCreated_joining _).2.symm⟩
  | audit there moves =>
      rw [there] at lock account
      cases moves <;> exact ⟨lock, account⟩

theorem closed (step : Step depositors bank event after) (closed : Closed bank) : Closed after := by
  obtain ⟨lock, account⟩ := closed
  cases step with
  | keeper there moves =>
      rw [there] at lock
      cases moves <;> exact ⟨lock, account⟩
  | accept there | enqueue there | handOver there | idle there | grant there =>
      rw [there] at lock
      exact ⟨lock, account⟩
  | closeLock there calm closed =>
      rw [there, closed] at lock
      exact ⟨lock, account⟩
  | teller there moves =>
      rw [there] at account
      cases moves <;> exact ⟨lock, account⟩
  | credit there | attend there | tell there =>
      rw [there] at account
      exact ⟨lock, account⟩
  | closeAccount there settled silent closed =>
      rw [there, closed] at account
      exact ⟨lock, account⟩
  | customer | acquire | inquire | pay | release => exact ⟨lock, account⟩
  | report due there =>
      rw [due, there] at account
      rw [there] at lock
      exact ⟨lock, account⟩
  | createLock there =>
      rw [there] at lock account
      have unclosed := (Bool.or_eq_false_iff.mp lock.symm).1
      exact ⟨by rw [unclosed]; rfl, account⟩
  | createAccount there =>
      rw [there] at lock account
      have unclosed := (Bool.or_eq_false_iff.mp account.symm).1
      exact ⟨(Audit.hasClosed_creating _ _).1.trans lock,
        (Audit.hasClosed_creating _ _).2.trans (by rw [unclosed]; rfl)⟩
  | create there =>
      rw [there] at lock account
      exact ⟨(Audit.hasClosed_creating _ _).1.trans lock,
        (Audit.hasClosed_creating _ _).2.trans account⟩
  | join there =>
      rw [there] at lock account
      exact ⟨(Audit.hasClosed_joining _).1.trans lock, (Audit.hasClosed_joining _).2.trans account⟩
  | ask there =>
      rw [there] at lock account
      exact ⟨lock, account⟩
  | audit there moves =>
      rw [there] at lock account
      cases moves <;> exact ⟨lock, account⟩
  | shutAccount there =>
      rw [there] at lock
      exact ⟨lock, rfl⟩
  | shutLock there =>
      rw [there] at account
      exact ⟨rfl, account⟩

theorem blank (step : Step depositors bank event after) (ordered : Ordered depositors bank) :
    Blank after := by
  obtain ⟨requests, stored, question⟩ := ordered.blank
  cases step with
  | keeper | accept | enqueue | handOver | idle | closeLock => exact ⟨nofun, stored, question⟩
  | grant | createLock => exact ⟨nofun, stored, question⟩
  | teller | credit | attend | tell | report | closeAccount => exact ⟨requests, nofun, nofun⟩
  | createAccount => exact ⟨requests, nofun, nofun⟩
  | customer | create | join | audit | shutAccount | shutLock => exact ⟨requests, stored, question⟩
  | acquire there | release there =>
      exact ⟨fun none => absurd none (ordered.created there).1, stored, question⟩
  | inquire there | pay there =>
      have created := (ordered.created there).2
      exact ⟨requests, fun none => absurd none created, fun none => absurd none created⟩
  | ask there =>
      refine ⟨requests, stored, ?_⟩
      intro none
      have created := ordered.opened.account
      rw [there, show bank.teller = Option.none from none] at created
      cases created

theorem ordered (step : Step depositors bank event after) (ordered : Ordered depositors bank) :
    Ordered depositors after :=
  ⟨step.roll ordered.roll, step.opened ordered.opened, step.closed ordered.closed,
    step.blank ordered⟩

/-- There are finitely many steps. -/
theorem work_lt
    (step : Step depositors bank event after) (roll : Roll depositors bank.audit bank.customers) :
    after.work depositors < bank.work depositors := by
  cases step with
  | keeper there moves => cases moves <;> simp [work, there, Keeper.work]
  | accept there first | enqueue there first | handOver there first | idle there first =>
      simp only [work, there, first, Option.map_some, Option.getD_some, Keeper.work, Request.work,
        tally, List.cons_append, List.tail_cons, List.tail_nil,
        List.length_append, List.length_cons, List.length_nil]
      omega
  | closeLock there calm closed =>
      simp only [work, there, closed, Option.map_some, Option.getD_some, Keeper.work,
        Bool.toNat_true, Bool.toNat_false]
      omega
  | teller there moves => cases moves <;> simp [work, there, Teller.work]
  | credit there first => simp [work, there, first, Teller.work]
  | attend there settled first =>
      simp [work, there, first, Teller.work]
      omega
  | report due there => simp [work, there, due, Teller.work, Audit.work]
  | closeAccount there settled silent closed => simp [work, there, closed, Teller.work]
  | @grant index next queue due there =>
      have sum := tally_set (fun _ => Customer.work) there (.waits next true)
      simp only [Customer.work] at sum
      simp [work, due, Keeper.work]
      omega
  | @tell index balance reply due there =>
      have sum := tally_set (fun _ => Customer.work) there (.reads reply (some balance))
      simp only [Customer.work] at sum
      simp [work, due, Teller.work]
      omega
  | @customer index before now there moves =>
      have sum := tally_set (fun _ => Customer.work) there now
      have less : now.work < before.work := by cases moves <;> simp [Customer.work]
      simp [work]
      omega
  | @acquire index grant there owner =>
      have sum := tally_set (fun _ => Customer.work) there (.waits grant false)
      simp only [Customer.work] at sum
      simp [work, Request.work]
      omega
  | @inquire index reply there owner silent =>
      have sum := tally_set (fun _ => Customer.work) there (.reads reply none)
      simp only [Customer.work] at sum
      simp [work, silent]
      omega
  | @pay index balance there settled silent =>
      have sum := tally_set (fun _ => Customer.work) there .releases
      simp only [Customer.work] at sum
      simp [work, settled]
      omega
  | @release index there =>
      have sum := tally_set (fun _ => Customer.work) there .ends
      simp only [Customer.work] at sum
      simp [work, Request.work]
      omega
  | createLock there =>
      simp [work, there, Audit.work, Keeper.work]
      omega
  | createAccount there =>
      have now : (Audit.creating depositors []).work depositors = _ :=
        Audit.work_creating (Nat.zero_le depositors)
      have before : Audit.createsAccount.work depositors = 18 * depositors + 15 := rfl
      simp [work, there, now, before, Teller.work]
      omega
  | @create made grant there owner =>
      obtain ⟨missing, -⟩ := roll.made made there
      have now : (Audit.creating depositors (made ++ [grant])).work depositors = _ :=
        Audit.work_creating (by rw [List.length_append]; exact missing)
      have before : (Audit.creates made).work depositors =
          11 + depositors + 17 * (depositors - made.length) := rfl
      simp [work, there, now, before, Customer.work]
      omega
  | @join next rest index there owner gone =>
      have before : (Audit.joins next rest).work depositors = 12 + rest.length := rfl
      simp [work, there, before]
  | audit there moves =>
      have less : Audit.work depositors _ < Audit.work depositors _ := moves.work_lt depositors
      simp [work, there]
      omega
  | ask there silent =>
      simp [work, there, silent, Audit.work]
      omega
  | shutAccount there =>
      simp [work, there, Audit.work]
      omega
  | shutLock there =>
      simp [work, there, Audit.work]
      omega

end Bank.Step

end Interleave.Deposits
