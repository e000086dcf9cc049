import Mathlib.Data.List.Nodup
import Interleave.Proofs.Deposits.Ledger

namespace Interleave.Deposits

section Tally

variable {α : Type}

/-- The sum of the weights of all elements, which depend on the positions. -/
def tally (weigh : Nat → α → Nat) : List α → Nat
  | [] => 0
  | head :: rest => weigh 0 head + tally (fun position => weigh (position + 1)) rest

@[simp] theorem tally_append (weigh : Nat → α → Nat) (list : List α) (last : α) :
    tally weigh (list ++ [last]) = tally weigh list + weigh list.length last := by
  induction list generalizing weigh with
  | nil => exact Nat.add_comm _ _
  | cons head rest induction =>
      rw [List.cons_append, tally, tally, induction, List.length_cons]
      omega

theorem tally_set {list : List α} {index : Nat} {old : α} (weigh : Nat → α → Nat)
    (there : list[index]? = some old) (new : α) :
    tally weigh (list.set index new) + weigh index old = tally weigh list + weigh index new := by
  induction list generalizing index weigh with
  | nil => cases there
  | cons head rest induction =>
      cases index with
      | zero =>
          cases there
          rw [List.set_cons_zero, tally, tally]
          omega
      | succ index =>
          have later := induction (fun position => weigh (position + 1)) there
          rw [List.set_cons_succ, tally, tally]
          omega

end Tally

def client (index : Nat) : ActorId := ⟨index + 3⟩

theorem client_injective {first second : Nat} (same : client first = client second) :
    first = second := by
  simpa [client] using same

/-- How far a depositor has come. -/
inductive Standing
  | outside
  | queued (grant : Address)
  | admitted
  | asking (reply : Address)
  | told (balance : Nat)
  | paid
  | done

inductive Desk
  | serving (queue : List Address)
  | granting (next : Address) (rest : List Address)
  | closed

inductive Request
  | acquire (grant : Address)
  | release
deriving DecidableEq

inductive Window
  | serving (balance : Nat)
  | answering (reply : Address) (balance : Nat)
  | closed

inductive Review
  | ahead
  | asking (reply : Address)
  | complete

structure Protocol where
  standings : List Standing
  review : Review
  desk : Desk
  /-- The messages to the lock server. -/
  requests : List Request
  window : Window
  /-- The messages to the account: a new balance comes before a question. -/
  stored : Option Nat
  question : Option Address

inductive Hold
  | admitted
  | told (balance : Nat)
  | paid

namespace Standing

def hold? : Standing → Option Hold
  | admitted | asking _ => some .admitted
  | told balance => some (.told balance)
  | paid => some .paid
  | outside | queued _ | done => none

def share (index : Nat) : Standing → Nat
  | paid | done => index + 1
  | _ => 0

end Standing

def Ledger.hold? (ledger : Ledger) (id : ActorId) : Option Hold :=
  match ledger with
  | granted client _ => if id = client then some .admitted else none
  | answered client balance => if id = client then some (.told balance) else none
  | stored client _ => if id = client then some .paid else none
  | free _ | audited _ => none

namespace Desk

def held : Desk → Nat
  | serving (_ :: _) => 1
  | _ => 0

def line : Desk → List Address
  | serving queue => queue.tail
  | granting next rest => next :: rest
  | closed => []

end Desk

def Request.grant? : Request → Option Address
  | acquire grant => some grant
  | release => none

namespace Window

def asked : Window → List Address
  | answering reply _ => [reply]
  | _ => []

def balance? : Window → Option Nat
  | serving balance | answering _ balance => some balance
  | closed => none

end Window

namespace Protocol

def line (protocol : Protocol) : List Address :=
  protocol.desk.line ++ protocol.requests.filterMap Request.grant?

def asked (protocol : Protocol) : List Address :=
  protocol.question.toList ++ protocol.window.asked

inductive Step (protocol : Protocol) : Option Event → Protocol → Prop
  | arrive (ahead : protocol.review = .ahead) :
      Step protocol none { protocol with standings := protocol.standings ++ [.outside] }
  | acquire {index : Nat} {grant : Address}
      (there : protocol.standings[index]? = some .outside) (owner : grant.owner = client index) :
      Step protocol none { protocol with
        standings := protocol.standings.set index (.queued grant)
        requests := protocol.requests ++ [.acquire grant] }
  | accept {grant : Address} {rest : List Request} (free : protocol.desk = .serving [])
      (first : protocol.requests = .acquire grant :: rest) :
      Step protocol none { protocol with desk := .granting grant [], requests := rest }
  | enqueue {holder grant : Address} {queue : List Address} {rest : List Request}
      (busy : protocol.desk = .serving (holder :: queue))
      (first : protocol.requests = .acquire grant :: rest) :
      Step protocol none { protocol with
        desk := .serving (holder :: queue ++ [grant])
        requests := rest }
  | handOver {holder next : Address} {queue : List Address} {rest : List Request}
      (busy : protocol.desk = .serving (holder :: next :: queue))
      (first : protocol.requests = .release :: rest) :
      Step protocol none { protocol with desk := .granting next queue, requests := rest }
  | idle {holder : Address} {rest : List Request} (busy : protocol.desk = .serving [holder])
      (first : protocol.requests = .release :: rest) :
      Step protocol none { protocol with desk := .serving [], requests := rest }
  | grant {index : Nat} {next : Address} {queue : List Address}
      (due : protocol.desk = .granting next queue)
      (there : protocol.standings[index]? = some (.queued next)) :
      Step protocol (some (.grants (client index))) { protocol with
        standings := protocol.standings.set index .admitted
        desk := .serving (next :: queue) }
  | inquire {index : Nat} {reply : Address}
      (there : protocol.standings[index]? = some .admitted) (owner : reply.owner = client index)
      (silent : protocol.question = none) :
      Step protocol none { protocol with
        standings := protocol.standings.set index (.asking reply)
        question := some reply }
  | credit {balance amount : Nat} (serving : protocol.window = .serving balance)
      (first : protocol.stored = some amount) :
      Step protocol none { protocol with window := .serving amount, stored := none }
  | attend {balance : Nat} {reply : Address} (serving : protocol.window = .serving balance)
      (settled : protocol.stored = none) (first : protocol.question = some reply) :
      Step protocol none { protocol with window := .answering reply balance, question := none }
  | tell {index balance : Nat} {reply : Address} (due : protocol.window = .answering reply balance)
      (there : protocol.standings[index]? = some (.asking reply)) :
      Step protocol (some (.answers (client index) balance)) { protocol with
        standings := protocol.standings.set index (.told balance)
        window := .serving balance }
  | pay {index balance : Nat} (there : protocol.standings[index]? = some (.told balance))
      (settled : protocol.stored = none) (silent : protocol.question = none) :
      Step protocol (some (.stores (client index) (balance + (index + 1)))) { protocol with
        standings := protocol.standings.set index .paid
        stored := some (balance + (index + 1)) }
  | release {index : Nat} (there : protocol.standings[index]? = some .paid) :
      Step protocol (some (.releases (client index))) { protocol with
        standings := protocol.standings.set index .done
        requests := protocol.requests ++ [.release] }
  | audit {reply : Address} (ahead : protocol.review = .ahead)
      (done : ∀ standing ∈ protocol.standings, standing = .done)
      (silent : protocol.question = none) :
      Step protocol none { protocol with review := .asking reply, question := some reply }
  | report {balance : Nat} {reply : Address} (due : protocol.window = .answering reply balance)
      (asking : protocol.review = .asking reply) :
      Step protocol (some (.answers .root balance)) { protocol with
        review := .complete
        window := .serving balance }
  | closeAccount {balance : Nat} (serving : protocol.window = .serving balance)
      (settled : protocol.stored = none) (silent : protocol.question = none)
      (complete : protocol.review = .complete) : Step protocol none { protocol with window := .closed }
  | closeLock {queue : List Address} (serving : protocol.desk = .serving queue)
      (calm : protocol.requests = []) (complete : protocol.review = .complete) :
      Step protocol none { protocol with desk := .closed }

end Protocol

variable {standings : List Standing} {index : Nat} {old new : Standing} {ledger next : Ledger}
  {review : Review} {address : Address} {line asked : List Address}

/-- Who holds the lock stands where the ledger says, and the balance is what has been added. -/
structure Accounts (standings : List Standing) (ledger : Ledger) : Prop where
  holds : ∀ (index : Nat) standing, standings[index]? = some standing →
    standing.hold? = ledger.hold? (client index)
  holder : ∀ id hold, ledger.hold? id = some hold → ∃ index < standings.length, id = client index
  deposited : ledger.balance = tally Standing.share standings

structure Lines (standings : List Standing) (line : List Address) : Prop where
  nodup : line.Nodup
  queued : ∀ grant, grant ∈ line ↔ .queued grant ∈ standings

/-- At most one question is left, and who has asked it waits for the answer. -/
structure Asks (standings : List Standing) (review : Review) (asked : List Address) : Prop where
  single : asked.length ≤ 1
  asking : ∀ reply, reply ∈ asked ↔ review = .asking reply ∨ .asking reply ∈ standings

def Owned (standings : List Standing) : Prop :=
  ∀ (index : Nat) address, standings[index]? = some (.queued address) ∨
    standings[index]? = some (.asking address) → address.owner = client index

structure Reviews (standings : List Standing) (review : Review) (ledger : Ledger) : Prop where
  done : review ≠ .ahead → ∀ standing ∈ standings, standing = .done
  audited : (∃ balance, ledger = .audited balance) ↔ review = .complete

/-- The account knows the balance, or it is in the latest message that has been sent to it. -/
structure Balances (window : Window) (stored : Option Nat) (ledger : Ledger) : Prop where
  current : ∀ balance, window.balance? = some balance → ledger.balance = stored.getD balance
  settled : (window.asked ≠ [] ∨ ∃ client balance, ledger = .answered client balance) →
    stored = none

/-- Either somebody holds the lock, or a message says that it has been released. -/
def Tokens (desk : Desk) (requests : List Request) (ledger : Ledger) : Prop :=
  requests.count .release + ledger.holder?.toList.length = desk.held

/-- The states that the protocol can be in, and where the ledger is then. -/
structure Lawful (protocol : Protocol) (ledger : Ledger) : Prop where
  accounts : Accounts protocol.standings ledger
  owned : Owned protocol.standings
  lines : Lines protocol.standings protocol.line
  tokens : Tokens protocol.desk protocol.requests ledger
  asks : Asks protocol.standings protocol.review protocol.asked
  reviews : Reviews protocol.standings protocol.review ledger
  balances : Balances protocol.window protocol.stored ledger

section Set

theorem lt_length (there : standings[index]? = some old) : index < standings.length :=
  (List.getElem?_eq_some_iff.mp there).1

theorem mem_set_iff (there : standings[index]? = some old) {standing : Standing} :
    standing ∈ standings.set index new ↔
      standing = new ∨ ∃ position : Nat, position ≠ index ∧
        standings[position]? = some standing := by
  have inside := lt_length there
  rw [List.mem_iff_getElem?]
  constructor
  · rintro ⟨position, found⟩
    rw [List.getElem?_set] at found
    by_cases same : index = position
    · rw [if_pos same, if_pos inside] at found
      exact .inl (Option.some.inj found).symm
    · rw [if_neg same] at found
      exact .inr ⟨position, fun here => same here.symm, found⟩
  · rintro (rfl | ⟨position, differs, found⟩)
    · exact ⟨index, List.getElem?_set_self inside⟩
    · exact ⟨position, by rw [List.getElem?_set_ne differs.symm, found]⟩

theorem mem_set_of_ne
    (there : standings[index]? = some old) {standing : Standing} (before : old ≠ standing)
    (now : new ≠ standing) : standing ∈ standings.set index new ↔ standing ∈ standings := by
  rw [mem_set_iff there, List.mem_iff_getElem?]
  constructor
  · rintro (rfl | ⟨position, -, found⟩)
    · exact absurd rfl now
    · exact ⟨position, found⟩
  · rintro ⟨position, found⟩
    refine .inr ⟨position, ?_, found⟩
    rintro rfl
    exact before (Option.some.inj (there.symm.trans found))

theorem Accounts.set
    (accounts : Accounts standings ledger) (there : standings[index]? = some old)
    (holds : new.hold? = next.hold? (client index))
    (others : ∀ id, id ≠ client index → next.hold? id = ledger.hold? id)
    (deposited : next.balance + old.share index = ledger.balance + new.share index) :
    Accounts (standings.set index new) next where
  holds := by
    intro position standing found
    rw [List.getElem?_set] at found
    by_cases same : index = position
    · rw [if_pos same, if_pos (lt_length there)] at found
      cases found
      rw [← same, holds]
    · rw [if_neg same] at found
      rw [accounts.holds position standing found, others]
      intro same'
      exact same (client_injective same'.symm)
  holder := by
    intro id hold found
    rw [List.length_set]
    by_cases self : id = client index
    · exact ⟨index, lt_length there, self⟩
    · rw [others id self] at found
      exact accounts.holder id hold found
  deposited := by
    have sum := tally_set Standing.share there new
    have known := accounts.deposited
    omega

theorem Accounts.set_same
    (accounts : Accounts standings ledger) (there : standings[index]? = some old)
    (holds : new.hold? = old.hold?) (shares : new.share index = old.share index) :
    Accounts (standings.set index new) ledger := by
  apply accounts.set there _ (fun _ _ => rfl) (by rw [shares])
  rw [holds]
  exact accounts.holds index old there

theorem Owned.set
    (owned : Owned standings) (there : standings[index]? = some old)
    (own : ∀ address, new = .queued address ∨ new = .asking address →
      address.owner = client index) : Owned (standings.set index new) := by
  intro position address found
  rw [List.getElem?_set] at found
  by_cases same : index = position
  · rw [if_pos same, if_pos (lt_length there), Option.some.injEq, Option.some.injEq] at found
    rw [← same]
    exact own address found
  · rw [if_neg same] at found
    exact owned position address found

theorem Lines.set
    (lines : Lines standings line) (there : standings[index]? = some old)
    (before : ∀ grant, old ≠ .queued grant) (now : ∀ grant, new ≠ .queued grant) :
    Lines (standings.set index new) line :=
  ⟨lines.nodup, fun grant => by rw [mem_set_of_ne there (before grant) (now grant), lines.queued]⟩

theorem Asks.set
    (asks : Asks standings review asked) (there : standings[index]? = some old)
    (before : ∀ reply, old ≠ .asking reply) (now : ∀ reply, new ≠ .asking reply) :
    Asks (standings.set index new) review asked :=
  ⟨asks.single, fun reply => by rw [mem_set_of_ne there (before reply) (now reply), asks.asking]⟩

theorem Reviews.ahead
    (reviews : Reviews standings review ledger) (there : standings[index]? = some old)
    (undone : old ≠ .done) : review = .ahead := by
  by_contra late
  exact undone (reviews.done late old (List.mem_of_getElem? there))

theorem Reviews.set
    (reviews : Reviews standings review ledger) (there : standings[index]? = some old)
    (undone : old ≠ .done) (unaudited : ∀ balance, next ≠ .audited balance) :
    Reviews (standings.set index new) review next := by
  have ahead := reviews.ahead there undone
  refine ⟨fun late => absurd ahead late, fun ⟨balance, same⟩ => absurd same (unaudited balance), ?_⟩
  intro complete
  rw [ahead] at complete
  cases complete

theorem Reviews.unaudited
    (reviews : Reviews standings review ledger) (there : standings[index]? = some old)
    (undone : old ≠ .done) (balance : Nat) : ledger ≠ .audited balance := by
  intro same
  have complete := reviews.audited.mp ⟨balance, same⟩
  rw [reviews.ahead there undone] at complete
  cases complete

end Set

theorem Ledger.hold?_unique
    {first second : ActorId} {one other : Hold} (found : ledger.hold? first = some one)
    (known : ledger.hold? second = some other) : first = second := by
  cases ledger with
  | free | audited => cases found
  | granted holder | answered holder | stored holder =>
      simp only [Ledger.hold?, Option.ite_none_right_eq_some] at found known
      exact found.1.trans known.1.symm

theorem Asks.eq_nil_of_hold
    {hold : Hold} (asks : Asks standings review asked) (accounts : Accounts standings ledger)
    (reviews : Reviews standings review ledger) (there : standings[index]? = some old)
    (holds : old.hold? = some hold) (silent : ∀ reply, old ≠ .asking reply) : asked = [] := by
  rw [List.eq_nil_iff_forall_not_mem]
  intro reply member
  have undone : old ≠ .done := by
    rintro rfl
    cases holds
  rcases (asks.asking reply).mp member with asking | asking
  · rw [reviews.ahead there undone] at asking
    cases asking
  · obtain ⟨position, found⟩ := List.mem_iff_getElem?.mp asking
    have one := (accounts.holds position _ found).symm
    have other := (accounts.holds index old there).symm.trans holds
    cases client_injective (Ledger.hold?_unique one other)
    exact silent reply (Option.some.inj (there.symm.trans found))

section Steps

variable {grant reply : Address}

theorem Accounts.arrive (accounts : Accounts standings ledger) :
    Accounts (standings ++ [.outside]) ledger where
  holds := by
    intro index standing found
    rw [List.getElem?_append] at found
    split at found
    · exact accounts.holds index standing found
    · rename_i late
      rw [List.getElem?_singleton] at found
      split at found
      · cases found
        cases held : ledger.hold? (client index) with
        | none => rfl
        | some hold =>
            obtain ⟨position, inside, same⟩ := accounts.holder _ _ held
            rw [client_injective same] at late
            exact absurd inside late
      · cases found
  holder := by
    intro id hold found
    obtain ⟨index, inside, same⟩ := accounts.holder id hold found
    exact ⟨index, by rw [List.length_append]; omega, same⟩
  deposited := by
    rw [tally_append, accounts.deposited]
    rfl

theorem Owned.arrive (owned : Owned standings) : Owned (standings ++ [.outside]) := by
  intro index address found
  rw [List.getElem?_append] at found
  split at found
  · exact owned index address found
  · rw [List.getElem?_singleton] at found
    split at found <;> simp at found

theorem Lines.arrive (lines : Lines standings line) : Lines (standings ++ [.outside]) line :=
  ⟨lines.nodup, fun grant => by rw [lines.queued]; simp⟩

theorem Asks.arrive (asks : Asks standings review asked) :
    Asks (standings ++ [.outside]) review asked :=
  ⟨asks.single, fun reply => by rw [asks.asking]; simp⟩

theorem Lines.acquire
    (lines : Lines standings line) (owned : Owned standings)
    (there : standings[index]? = some .outside) (owner : grant.owner = client index) :
    Lines (standings.set index (.queued grant)) (line ++ [grant]) := by
  have fresh : ∀ position : Nat, standings[position]? ≠ some (.queued grant) := by
    intro position found
    have same := (owned position grant (.inl found)).symm.trans owner
    rw [client_injective same, there] at found
    cases found
  have queued : ∀ known, known ∈ line ++ [grant] ↔
      .queued known ∈ standings.set index (.queued grant) := by
    intro known
    rw [List.mem_append, List.mem_singleton]
    by_cases same : known = grant
    · subst same
      simp [mem_set_iff there]
    · have differs : (.queued grant : Standing) ≠ .queued known := by
        rintro ⟨⟩
        exact same rfl
      have before : (.outside : Standing) ≠ .queued known := nofun
      rw [mem_set_of_ne there before differs, lines.queued]
      simp [same]
  refine ⟨?_, queued⟩
  rw [List.nodup_append]
  refine ⟨lines.nodup, List.nodup_singleton _, ?_⟩
  rintro known member other last rfl
  cases List.mem_singleton.mp last
  obtain ⟨position, found⟩ := List.mem_iff_getElem?.mp ((lines.queued _).mp member)
  exact fresh position found

theorem Lines.enter
    (lines : Lines standings (grant :: line)) (owned : Owned standings)
    (there : standings[index]? = some (.queued grant)) :
    Lines (standings.set index .admitted) line := by
  obtain ⟨first, rest⟩ := List.nodup_cons.mp lines.nodup
  refine ⟨rest, fun known => ?_⟩
  by_cases same : known = grant
  · subst same
    rw [mem_set_iff there]
    refine iff_of_false first ?_
    rintro (impossible | ⟨position, differs, found⟩)
    · cases impossible
    · have owner := (owned position _ (.inl found)).symm.trans (owned index _ (.inl there))
      exact differs (client_injective owner)
  · have differs : (.queued grant : Standing) ≠ .queued known := by
      rintro ⟨⟩
      exact same rfl
    have now : (.admitted : Standing) ≠ .queued known := nofun
    rw [mem_set_of_ne there differs now, ← lines.queued, List.mem_cons]
    simp [same]

theorem Asks.ask
    (asks : Asks standings review []) (there : standings[index]? = some .admitted) :
    Asks (standings.set index (.asking reply)) review [reply] := by
  have none := asks.asking
  simp only [List.not_mem_nil, false_iff, not_or] at none
  refine ⟨Nat.le_refl 1, fun known => ?_⟩
  rw [List.mem_singleton]
  by_cases same : known = reply
  · subst same
    simp [mem_set_iff there]
  · have before : (.admitted : Standing) ≠ .asking known := nofun
    have differs : (.asking reply : Standing) ≠ .asking known := by
      rintro ⟨⟩
      exact same rfl
    rw [mem_set_of_ne there before differs]
    simp [same, none known]

theorem Asks.tell
    (asks : Asks standings review [reply]) (owned : Owned standings) (ahead : review = .ahead)
    (there : standings[index]? = some (.asking reply)) (balance : Nat) :
    Asks (standings.set index (.told balance)) review [] := by
  subst ahead
  have one := asks.asking
  simp only [List.mem_singleton, reduceCtorEq, false_or] at one
  refine ⟨Nat.zero_le 1, fun known => iff_of_false List.not_mem_nil ?_⟩
  rw [mem_set_iff there]
  rintro (impossible | impossible | ⟨position, differs, found⟩)
  · cases impossible
  · cases impossible
  · cases (one known).mpr (List.mem_of_getElem? found)
    have owner := (owned position _ (.inr found)).symm.trans (owned index _ (.inr there))
    exact differs (client_injective owner)

end Steps

/-- The ledger makes a step with each event, and only then. -/
def Ledger.Follows (ledger : Ledger) : Option Event → Ledger → Prop
  | none, next => next = ledger
  | some event, next => ledger.Step event next

section Places

variable {holder : ActorId} {balance : Nat}

theorem Ledger.hold?_eq_admitted (found : ledger.hold? holder = some .admitted) :
    ledger = .granted holder ledger.balance := by
  cases ledger with
  | granted client balance =>
      simp only [Ledger.hold?, Option.ite_none_right_eq_some] at found
      rw [found.1]
      rfl
  | _ => simp [Ledger.hold?] at found

theorem Ledger.hold?_eq_told (found : ledger.hold? holder = some (.told balance)) :
    ledger = .answered holder balance := by
  cases ledger with
  | answered client known =>
      simp only [Ledger.hold?, Option.ite_none_right_eq_some, Option.some.injEq,
        Hold.told.injEq] at found
      rw [found.1, found.2]
  | _ => simp [Ledger.hold?] at found

theorem Ledger.hold?_eq_paid (found : ledger.hold? holder = some .paid) :
    ledger = .stored holder ledger.balance := by
  cases ledger with
  | stored client balance =>
      simp only [Ledger.hold?, Option.ite_none_right_eq_some] at found
      rw [found.1]
      rfl
  | _ => simp [Ledger.hold?] at found

theorem Ledger.eq_free (vacant : ledger.holder? = none)
    (unaudited : ∀ balance, ledger ≠ .audited balance) : ledger = .free ledger.balance := by
  cases ledger with
  | free => rfl
  | audited balance => exact absurd rfl (unaudited balance)
  | granted | answered | stored => cases vacant

theorem Ledger.exists_hold (held : ledger.holder? = some holder) :
    ∃ hold, ledger.hold? holder = some hold := by
  cases ledger with
  | free | audited => cases held
  | granted | answered | stored =>
      cases held
      exact ⟨_, if_pos rfl⟩

theorem Accounts.vacant
    (accounts : Accounts standings ledger) (done : ∀ standing ∈ standings, standing = .done) :
    ledger.holder? = none := by
  cases holds : ledger.holder? with
  | none => rfl
  | some holder =>
      obtain ⟨hold, held⟩ := Ledger.exists_hold holds
      obtain ⟨index, inside, rfl⟩ := accounts.holder _ _ held
      have known := accounts.holds index _ (List.getElem?_eq_getElem inside)
      rw [held, done _ (List.getElem_mem inside)] at known
      cases known

end Places

theorem Balances.of_answering
    {stored : Option Nat} {balance : Nat} {reply : Address}
    (balances : Balances (.answering reply balance) stored ledger) :
    stored = none ∧ ledger.balance = balance := by
  have settled := balances.settled (.inl (List.cons_ne_nil _ _))
  have current := balances.current balance rfl
  rw [settled, Option.getD_none] at current
  exact ⟨settled, current⟩

namespace Lawful

variable {protocol after : Protocol} {event : Option Event} {balance : Nat} {reply : Address}
  {queue : List Address}

section Events

variable (lawful : Lawful protocol ledger)

include lawful

theorem silent_of_answering (due : protocol.window = .answering reply balance) :
    protocol.question = none := by
  have single := lawful.asks.single
  cases asked : protocol.question with
  | none => rfl
  | some other => simp [Protocol.asked, asked, due, Window.asked] at single

theorem silent_of_hold
    {hold : Hold} (there : protocol.standings[index]? = some old) (holds : old.hold? = some hold)
    (unasked : ∀ reply, old ≠ .asking reply) :
    protocol.question = none ∧ protocol.window.asked = [] := by
  have nobody := lawful.asks.eq_nil_of_hold lawful.accounts lawful.reviews there holds unasked
  obtain ⟨question, asked⟩ := List.append_eq_nil_iff.mp nobody
  exact ⟨Option.toList_eq_nil_iff.mp question, asked⟩

theorem vacant_of_granting (due : protocol.desk = .granting address queue) :
    ledger.holder? = none ∧ protocol.requests.count .release = 0 := by
  have tokens := lawful.tokens
  simp only [Tokens, due, Desk.held] at tokens
  rw [← Option.toList_eq_nil_iff, ← List.length_eq_zero_iff]
  omega

theorem grant
    (due : protocol.desk = .granting address queue)
    (there : protocol.standings[index]? = some (.queued address)) :
    ∃ next, ledger.Step (.grants (client index)) next ∧ Lawful { protocol with
      standings := protocol.standings.set index .admitted
      desk := .serving (address :: queue) } next := by
  obtain ⟨vacant, given⟩ := lawful.vacant_of_granting due
  obtain ⟨accounts, owned, lines, tokens, asks, reviews, balances⟩ := lawful
  have free := Ledger.eq_free vacant (reviews.unaudited there nofun)
  rw [free] at accounts balances ⊢
  refine ⟨_, .grant (client index) ledger.balance, ?_, owned.set there nofun, ?_, ?_,
    asks.set there nofun nofun, reviews.set there nofun nofun, balances.current, ?_⟩
  · exact accounts.set there (if_pos rfl).symm (fun id differs => if_neg differs) rfl
  · have known := lines
    simp only [Protocol.line, due, Desk.line] at known ⊢
    exact known.enter owned there
  · simp only [Tokens, given, Desk.held, Ledger.holder?, Option.toList_some,
      List.length_singleton]
  · rintro (asked | ⟨client, balance, impossible⟩)
    · exact balances.settled (.inl asked)
    · cases impossible

theorem inquire
    (there : protocol.standings[index]? = some .admitted) (owner : reply.owner = client index) :
    Lawful { protocol with
      standings := protocol.standings.set index (.asking reply)
      question := some reply } ledger := by
  obtain ⟨silent, unasked⟩ := lawful.silent_of_hold there rfl nofun
  obtain ⟨accounts, owned, lines, tokens, asks, reviews, balances⟩ := lawful
  refine ⟨accounts.set_same there rfl rfl, owned.set there ?_, lines.set there nofun nofun, tokens,
    ?_, reviews.set there nofun (reviews.unaudited there nofun), balances⟩
  · rintro address (impossible | same)
    · cases impossible
    · cases same
      exact owner
  · simp only [Protocol.asked, silent, unasked, Option.toList_none, Option.toList_some,
      List.append_nil] at asks ⊢
    exact asks.ask there

theorem tell
    (due : protocol.window = .answering reply balance)
    (there : protocol.standings[index]? = some (.asking reply)) :
    ∃ next, ledger.Step (.answers (client index) balance) next ∧ Lawful { protocol with
      standings := protocol.standings.set index (.told balance)
      window := .serving balance } next := by
  have silent := lawful.silent_of_answering due
  obtain ⟨accounts, owned, lines, tokens, asks, reviews, balances⟩ := lawful
  rw [due] at balances
  obtain ⟨settled, current⟩ := balances.of_answering
  have granted := Ledger.hold?_eq_admitted (accounts.holds index _ there).symm
  rw [current] at granted
  subst granted
  refine ⟨_, .answer (client index) balance, ?_, owned.set there nofun,
    lines.set there nofun nofun, tokens, ?_, reviews.set there nofun nofun, ?_, fun _ => settled⟩
  · refine accounts.set there (if_pos rfl).symm ?_ rfl
    intro id differs
    exact (if_neg differs).trans (if_neg differs).symm
  · have ahead := reviews.ahead there nofun
    simp only [Protocol.asked, silent, due, Window.asked, Option.toList_none,
      List.nil_append] at asks ⊢
    exact asks.tell owned ahead there balance
  · rintro _ ⟨⟩
    rw [settled]
    rfl

theorem pay (there : protocol.standings[index]? = some (.told balance)) :
    ∃ next, ledger.Step (.stores (client index) (balance + (index + 1))) next ∧
      Lawful { protocol with
        standings := protocol.standings.set index .paid
        stored := some (balance + (index + 1)) } next := by
  obtain ⟨-, unasked⟩ := lawful.silent_of_hold there rfl nofun
  obtain ⟨accounts, owned, lines, tokens, asks, reviews, balances⟩ := lawful
  have told := Ledger.hold?_eq_told (accounts.holds index _ there).symm
  subst told
  refine ⟨_, .store (client index) balance, ?_, owned.set there nofun,
    lines.set there nofun nofun, tokens, asks.set there nofun nofun,
    reviews.set there nofun nofun, fun _ _ => rfl, ?_⟩
  · refine accounts.set there (if_pos rfl).symm ?_ rfl
    intro id differs
    exact (if_neg differs).trans (if_neg differs).symm
  · rintro (asked | ⟨client, balance, impossible⟩)
    · exact absurd unasked asked
    · cases impossible

theorem release (there : protocol.standings[index]? = some .paid) :
    ∃ next, ledger.Step (.releases (client index)) next ∧ Lawful { protocol with
      standings := protocol.standings.set index .done
      requests := protocol.requests ++ [.release] } next := by
  obtain ⟨accounts, owned, lines, tokens, asks, reviews, balances⟩ := lawful
  have paid := Ledger.hold?_eq_paid (accounts.holds index _ there).symm
  rw [paid] at accounts tokens balances ⊢
  have kept : Lines (protocol.standings.set index .done) protocol.line :=
    lines.set there nofun nofun
  refine ⟨_, .release (client index) ledger.balance, ?_, owned.set there nofun, ?_, ?_,
    asks.set there nofun nofun, reviews.set there nofun nofun, balances.current, ?_⟩
  · exact accounts.set there rfl (fun id differs => (if_neg differs).symm) rfl
  · simpa [Protocol.line, Request.grant?, List.filterMap_cons] using kept
  · simpa [Tokens, Ledger.holder?] using tokens
  · rintro (asked | ⟨client, balance, impossible⟩)
    · exact balances.settled (.inl asked)
    · cases impossible

theorem audit
    (ahead : protocol.review = .ahead) (done : ∀ standing ∈ protocol.standings, standing = .done) :
    Lawful { protocol with review := .asking reply, question := some reply } ledger := by
  obtain ⟨accounts, owned, lines, tokens, asks, reviews, balances⟩ := lawful
  have unasked : ∀ known, .asking known ∉ protocol.standings := by
    intro known member
    cases done _ member
  have nobody : protocol.asked = [] := by
    rw [List.eq_nil_iff_forall_not_mem]
    intro known member
    rcases (asks.asking known).mp member with asking | asking
    · rw [ahead] at asking
      cases asking
    · exact unasked known asking
  have none := (List.append_eq_nil_iff.mp nobody).2
  refine ⟨accounts, owned, lines, tokens, ⟨?_, ?_⟩, ⟨fun _ => done, ?_⟩, balances⟩
  · simp [Protocol.asked, none]
  · intro known
    simp [Protocol.asked, none, unasked known, eq_comm]
  · rw [reviews.audited, ahead]
    exact iff_of_false (by rintro ⟨⟩) (by rintro ⟨⟩)

theorem report
    (due : protocol.window = .answering reply balance)
    (asking : protocol.review = .asking reply) :
    ∃ next, ledger.Step (.answers .root balance) next ∧ Lawful { protocol with
      review := .complete
      window := .serving balance } next := by
  have silent := lawful.silent_of_answering due
  obtain ⟨accounts, owned, lines, tokens, asks, reviews, balances⟩ := lawful
  rw [due] at balances
  obtain ⟨settled, current⟩ := balances.of_answering
  have done := reviews.done (by rw [asking]; rintro ⟨⟩)
  have unaudited : ∀ known, ledger ≠ .audited known := by
    intro known same
    have complete := reviews.audited.mp ⟨known, same⟩
    rw [asking] at complete
    cases complete
  have free := Ledger.eq_free (accounts.vacant done) unaudited
  rw [current] at free
  subst free
  refine ⟨_, .audit balance, ⟨accounts.holds, accounts.holder, accounts.deposited⟩, owned, lines,
    tokens, ⟨?_, ?_⟩, ⟨fun _ => done, ⟨fun _ => rfl, fun _ => ⟨balance, rfl⟩⟩⟩, ?_,
    fun _ => settled⟩
  · simp [Protocol.asked, silent, Window.asked]
  · intro known
    have unasked : .asking known ∉ protocol.standings := by
      intro member
      cases done _ member
    simp [Protocol.asked, silent, Window.asked, unasked]
  · rintro _ ⟨⟩
    rw [settled]
    rfl

theorem closeLock
    (serving : protocol.desk = .serving queue) (calm : protocol.requests = [])
    (complete : protocol.review = .complete) :
    Lawful { protocol with desk := .closed } ledger := by
  obtain ⟨accounts, owned, lines, tokens, asks, reviews, balances⟩ := lawful
  have vacant := accounts.vacant (reviews.done (by rw [complete]; rintro ⟨⟩))
  have empty : queue = [] := by
    cases queue with
    | nil => rfl
    | cons => simp [Tokens, Desk.held, serving, calm, vacant] at tokens
  subst empty
  refine ⟨accounts, owned, ?_, ?_, asks, reviews, balances⟩
  · simpa [Protocol.line, Desk.line, serving] using lines
  · simpa [Tokens, Desk.held, serving] using tokens

end Events

/-- Whatever is done in a lawful state is one step of a serial story, or nothing that is told. -/
theorem exists_follows (lawful : Lawful protocol ledger) (step : protocol.Step event after) :
    ∃ next, ledger.Follows event next ∧ Lawful after next := by
  have whole := lawful
  obtain ⟨accounts, owned, lines, tokens, asks, reviews, balances⟩ := lawful
  cases step with
  | arrive ahead =>
      refine ⟨ledger, rfl, accounts.arrive, owned.arrive, lines.arrive, tokens, asks.arrive, ?_,
        balances⟩
      exact ⟨fun late => absurd ahead late, reviews.audited⟩
  | @acquire index grant there owner =>
      refine ⟨ledger, rfl, accounts.set_same there rfl rfl, owned.set there ?_, ?_, ?_,
        asks.set there nofun nofun, reviews.set there nofun (reviews.unaudited there nofun),
        balances⟩
      · rintro address (same | impossible)
        · cases same
          exact owner
        · cases impossible
      · have longer := lines.acquire owned there owner
        simpa [Protocol.line, Request.grant?] using longer
      · simpa [Tokens] using tokens
  | accept free first =>
      refine ⟨ledger, rfl, accounts, owned, ?_, ?_, asks, reviews, balances⟩
      · simpa [Protocol.line, Desk.line, Request.grant?, free, first] using lines
      · simpa [Tokens, Desk.held, free, first] using tokens
  | enqueue busy first =>
      refine ⟨ledger, rfl, accounts, owned, ?_, ?_, asks, reviews, balances⟩
      · simpa [Protocol.line, Desk.line, Request.grant?, busy, first] using lines
      · simpa [Tokens, Desk.held, busy, first] using tokens
  | handOver busy first | idle busy first =>
      refine ⟨ledger, rfl, accounts, owned, ?_, ?_, asks, reviews, balances⟩
      · simpa [Protocol.line, Desk.line, Request.grant?, List.filterMap_cons, busy, first] using lines
      · simp only [Tokens, Desk.held, busy, first, List.count_cons_self] at tokens ⊢
        omega
  | grant due there => exact whole.grant due there
  | inquire there owner => exact ⟨ledger, rfl, whole.inquire there owner⟩
  | @credit balance amount serving first =>
      have current := balances.current balance (by rw [serving]; rfl)
      rw [first] at current
      refine ⟨ledger, rfl, accounts, owned, lines, tokens, ?_, reviews, ?_, fun _ => rfl⟩
      · simpa [Protocol.asked, Window.asked, serving] using asks
      · rintro _ ⟨⟩
        exact current
  | @attend balance reply serving settled first =>
      refine ⟨ledger, rfl, accounts, owned, lines, tokens, ?_, reviews, ?_, fun _ => settled⟩
      · simpa [Protocol.asked, Window.asked, serving, first] using asks
      · rintro _ ⟨⟩
        exact balances.current balance (by rw [serving]; rfl)
  | tell due there => exact whole.tell due there
  | pay there => exact whole.pay there
  | release there => exact whole.release there
  | audit ahead done => exact ⟨ledger, rfl, whole.audit ahead done⟩
  | report due asking => exact whole.report due asking
  | closeAccount serving settled =>
      refine ⟨ledger, rfl, accounts, owned, lines, tokens, ?_, reviews, ?_, fun _ => settled⟩
      · simpa [Protocol.asked, Window.asked, serving] using asks
      · rintro _ ⟨⟩
  | closeLock serving calm complete => exact ⟨ledger, rfl, whole.closeLock serving calm complete⟩

end Lawful

end Interleave.Deposits
