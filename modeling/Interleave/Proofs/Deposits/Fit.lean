import Mathlib.Data.List.Induction
import Interleave.Proofs.Deposits.Bank

namespace Interleave.Deposits

variable {depositors : Nat}

namespace Bank.Step

variable {bank after : Bank} {event : Option Event}

theorem protocol_of_set
    {index : Nat} {now : Customer} (same : after.customers = bank.customers.set index now)
    (step : bank.protocol.Step event
      { after.protocol with standings := bank.protocol.standings.set index now.standing }) :
    bank.protocol.Step event after.protocol := by
  unfold Bank.protocol at step ⊢
  rw [same, List.map_set]
  exact step

theorem protocol (step : Step depositors bank event after) (ordered : Ordered depositors bank) :
    event = none ∧ after.protocol = bank.protocol ∨ bank.protocol.Step event after.protocol := by
  have desk : ∀ {keeper : Keeper}, bank.keeper = some keeper →
      bank.protocol.desk = keeper.desk := by
    intro keeper there
    simp [Bank.protocol, there]
  have window : ∀ {teller : Teller}, bank.teller = some teller →
      bank.protocol.window = teller.window := by
    intro teller there
    simp [Bank.protocol, there]
  have standing : ∀ {index : Nat} {customer : Customer}, bank.customers[index]? = some customer →
      bank.protocol.standings[index]? = some customer.standing := by
    intro index customer there
    simp [Bank.protocol, there]
  cases step with
  | keeper there moves =>
      refine .inl ⟨rfl, ?_⟩
      simp [Bank.protocol, there, moves.desk_eq]
  | accept there first => exact .inr (.accept (desk there) first)
  | enqueue there first => exact .inr (.enqueue (desk there) first)
  | handOver there first => exact .inr (.handOver (desk there) first)
  | idle there first => exact .inr (.idle (desk there) first)
  | @grant index next queue due there =>
      exact .inr (protocol_of_set rfl (.grant (desk due) (standing there)))
  | closeLock there calm closed =>
      have late : bank.audit.hasClosedLock = true := by rw [ordered.closed.lock, closed]; rfl
      exact .inr (.closeLock (desk there) calm (Audit.review_of_hasClosedLock late))
  | teller there moves =>
      refine .inl ⟨rfl, ?_⟩
      simp [Bank.protocol, there, moves.window_eq]
  | credit there first => exact .inr (.credit (window there) first)
  | attend there settled first => exact .inr (.attend (window there) settled first)
  | tell due there => exact .inr (protocol_of_set rfl (.tell (window due) (standing there)))
  | report due there =>
      exact .inr (.report (window due) (by simp [Bank.protocol, there, Audit.review]))
  | closeAccount there settled silent closed =>
      have late : bank.audit.hasClosedAccount = true := by rw [ordered.closed.account, closed]; rfl
      exact .inr (.closeAccount (window there) settled silent
        (Audit.review_of_hasClosedAccount late))
  | @customer index before now there moves =>
      refine .inl ⟨rfl, ?_⟩
      have same : (bank.customers.map Customer.standing).set index now.standing =
          bank.customers.map Customer.standing := by
        obtain ⟨inside, here⟩ := List.getElem?_eq_some_iff.mp (standing there)
        rw [moves.standing_eq, ← here]
        exact List.set_getElem_self inside
      unfold Bank.protocol
      rw [List.map_set, same]
  | acquire there owner => exact .inr (protocol_of_set rfl (.acquire (standing there) owner))
  | inquire there owner silent =>
      exact .inr (protocol_of_set rfl (.inquire (standing there) owner silent))
  | pay there settled silent =>
      exact .inr (protocol_of_set rfl (.pay (standing there) settled silent))
  | release there => exact .inr (protocol_of_set rfl (.release (standing there)))
  | createLock there =>
      refine .inl ⟨rfl, ?_⟩
      have none : bank.keeper = none := by
        have created := ordered.opened.lock
        rw [there] at created
        exact Option.not_isSome_iff_eq_none.mp (by rw [created]; exact Bool.false_ne_true)
      unfold Bank.protocol
      rw [none, there]
      rfl
  | createAccount there =>
      refine .inl ⟨rfl, ?_⟩
      have none : bank.teller = none := by
        have created := ordered.opened.account
        rw [there] at created
        exact Option.not_isSome_iff_eq_none.mp (by rw [created]; exact Bool.false_ne_true)
      unfold Bank.protocol
      rw [none, there, Audit.review_creating]
      rfl
  | create there owner =>
      right
      have step : bank.protocol.Step none _ := .arrive (by simp [Bank.protocol, there, Audit.review])
      unfold Bank.protocol at step ⊢
      rw [List.map_append, Audit.review_creating]
      rw [there] at step ⊢
      exact step
  | join there owner gone =>
      refine .inl ⟨rfl, ?_⟩
      unfold Bank.protocol
      rw [there, Audit.review_joining]
      rfl
  | audit there moves =>
      refine .inl ⟨rfl, ?_⟩
      unfold Bank.protocol
      rw [there, moves.review_eq]
  | ask there silent =>
      have done : ∀ standing ∈ bank.protocol.standings, standing = .done := by
        intro standing member
        obtain ⟨customer, listed, rfl⟩ := List.mem_map.mp member
        rw [(ordered.roll.late (by rw [there]; rfl)).2 customer listed]
        rfl
      exact .inr (.audit (by simp [Bank.protocol, there, Audit.review]) done silent)
  | shutAccount there | shutLock there =>
      refine .inl ⟨rfl, ?_⟩
      unfold Bank.protocol
      rw [there]
      rfl

end Bank.Step

/-- The states that the bank can be in, and where the ledger is then. -/
structure Fit (depositors : Nat) (bank : Bank) (ledger : Ledger) : Prop where
  ordered : Ordered depositors bank
  lawful : Lawful bank.protocol ledger
  known : ∀ balance, bank.audit.balance? = some balance → ledger = .audited balance

theorem fit_start (depositors : Nat) : Fit depositors .start (.free 0) where
  ordered := ⟨⟨fun _ => rfl, nofun, nofun, nofun⟩, ⟨rfl, rfl⟩, ⟨rfl, rfl⟩,
    ⟨fun _ => rfl, fun _ => rfl, fun _ => rfl⟩⟩
  lawful := by
    refine ⟨⟨nofun, nofun, rfl⟩, ?_, ⟨List.nodup_nil, ?_⟩, rfl, ⟨Nat.zero_le 1, ?_⟩, ⟨nofun, ?_⟩,
      ⟨?_, fun _ => rfl⟩⟩
    · rintro index address (impossible | impossible) <;> simp [Bank.protocol, Bank.start] at impossible
    · intro grant
      simp [Bank.protocol, Bank.start, Protocol.line, Desk.line]
    · intro reply
      simp [Bank.protocol, Bank.start, Protocol.asked, Window.asked, Audit.review]
    · simp [Bank.protocol, Bank.start, Audit.review]
    · rintro balance ⟨⟩
      rfl
  known := nofun

namespace Fit

variable {bank after : Bank} {event : Option Event} {ledger next : Ledger} {balance : Nat}

theorem known_of_step
    (known : ∀ balance, bank.audit.balance? = some balance → ledger = .audited balance)
    (step : bank.Step depositors event after) (follows : ledger.Follows event next)
    (reviews : Reviews after.protocol.standings after.protocol.review next)
    (knows : after.audit.balance? = some balance) : next = .audited balance := by
  have still : bank.audit.balance? = some balance → next = .audited balance := by
    intro before
    cases known balance before
    cases event with
    | none => exact follows
    | some event => cases follows
  cases step with
  | report due there =>
      cases knows
      obtain ⟨amount, audited⟩ := reviews.audited.mpr rfl
      have step : ledger.Step (.answers .root balance) next := follows
      cases step with
      | answer => cases audited
      | audit => rfl
  | audit there moves =>
      rw [there] at still
      cases moves with
      | close => exact still knows
      | inquire | leave | vanish => cases knows
  | shutAccount there =>
      rw [there] at still
      exact still knows
  | create there => simp at knows
  | createAccount there => simp at knows
  | join there => simp at knows
  | createLock there | ask there | shutLock there => cases knows
  | _ => exact still knows

theorem exists_follows
    (fit : Fit depositors bank ledger) (step : bank.Step depositors event after) :
    ∃ next, ledger.Follows event next ∧ Fit depositors after next := by
  have ordered := step.ordered fit.ordered
  rcases step.protocol fit.ordered with ⟨rfl, same⟩ | moved
  · have lawful : Lawful after.protocol ledger := by
      rw [same]
      exact fit.lawful
    exact ⟨ledger, rfl, ordered, lawful,
      fun balance => known_of_step fit.known step rfl lawful.reviews⟩
  · obtain ⟨next, follows, lawful⟩ := fit.lawful.exists_follows moved
    exact ⟨next, follows, ordered, lawful,
      fun balance => known_of_step fit.known step follows lawful.reviews⟩

end Fit

section Total

theorem total_succ (count : Nat) : total (count + 1) = total count + (count + 1) := by
  unfold total
  have twice : (count + 1) * (count + 1 + 1) = count * (count + 1) + 2 * (count + 1) := by
    rw [show count + 1 + 1 = count + 2 from rfl, Nat.mul_add, Nat.mul_comm (count + 1) count,
      Nat.mul_comm (count + 1) 2]
  rw [twice, Nat.add_mul_div_left _ _ (by decide)]

theorem total_le {first second : Nat} (le : first ≤ second) : total first ≤ total second :=
  Nat.div_le_div_right (Nat.mul_le_mul le (Nat.succ_le_succ le))

theorem tally_share_le (standings : List Standing) :
    tally Standing.share standings ≤ total standings.length := by
  induction standings using List.reverseRecOn with
  | nil => exact Nat.zero_le _
  | append_singleton standings last induction =>
      have share : last.share standings.length ≤ standings.length + 1 := by
        unfold Standing.share
        split <;> omega
      rw [tally_append, List.length_append, List.length_singleton, total_succ]
      omega

theorem tally_share_of_done
    {standings : List Standing} (done : ∀ standing ∈ standings, standing = .done) :
    tally Standing.share standings = total standings.length := by
  induction standings using List.reverseRecOn with
  | nil => rfl
  | append_singleton standings last induction =>
      rw [tally_append, List.length_append, List.length_singleton, total_succ,
        induction fun standing member => done standing (List.mem_append_left _ member),
        done last (List.mem_append_right _ (List.mem_singleton_self _))]
      rfl

end Total

/-- Nobody can make a step: every actor is gone, or waits for a message or an actor in vain. -/
structure Stuck (bank : Bank) : Prop where
  keeper : ∀ keeper, bank.keeper = some keeper →
    keeper = .gone ∨ (∃ queue, keeper = .receives queue) ∧ bank.requests = [] ∧
      bank.lockClosed = false
  teller : ∀ teller, bank.teller = some teller →
    teller = .gone ∨ (∃ balance, teller = .receives balance) ∧ bank.stored = none ∧
      bank.question = none ∧ bank.accountClosed = false
  customers : ∀ customer ∈ bank.customers, customer = .gone ∨
    (∃ grant, customer = .waits grant false) ∨ ∃ reply, customer = .reads reply none
  audit : bank.audit = .gone ∨ (∃ reply, bank.audit = .reads reply none) ∨
    ∃ next rest, bank.audit = .joins next rest ∧
      ∀ index, next.owner = client index → bank.customers[index]? ≠ some .gone

namespace Fit

variable {bank : Bank} {ledger : Ledger} {customer : Customer} {index : Nat}

theorem opened_of_living
    (fit : Fit depositors bank ledger) (there : bank.customers[index]? = some customer)
    (living : customer ≠ .gone) :
    bank.audit.hasCreatedLock = true ∧ bank.audit.hasCreatedAccount = true ∧
      bank.audit.hasClosedLock = false ∧ bank.audit.hasClosedAccount = false := by
  have early := fit.ordered.roll.not_late there living
  have some : ¬ (bank.audit = .createsLock ∨ bank.audit = .createsAccount) := by
    intro none
    rw [fit.ordered.roll.early none] at there
    cases there
  cases stage : bank.audit with
  | createsLock => exact absurd (.inl stage) some
  | createsAccount => exact absurd (.inr stage) some
  | creates | joins => exact ⟨rfl, rfl, rfl, rfl⟩
  | _ =>
      rw [stage] at early
      cases early

/-- Whoever holds the lock, or has read the balance, is the only one that deals with the account. -/
theorem silent_of_hold
    {hold : Hold} (fit : Fit depositors bank ledger) (there : bank.customers[index]? = some customer)
    (holds : customer.standing.hold? = some hold)
    (silent : ∀ reply, customer.standing ≠ .asking reply) : bank.question = none := by
  have standing : bank.protocol.standings[index]? = some customer.standing := by
    simp [Bank.protocol, there]
  exact (fit.lawful.silent_of_hold standing holds silent).1

theorem settled_of_told
    {balance : Nat} (fit : Fit depositors bank ledger)
    (there : bank.customers[index]? = some customer) (told : customer.standing = .told balance) :
    bank.stored = none := by
  have standing : bank.protocol.standings[index]? = some (.told balance) := by
    simp [Bank.protocol, there, told]
  have answered := Ledger.hold?_eq_told (fit.lawful.accounts.holds index _ standing).symm
  exact fit.lawful.balances.settled (.inr ⟨_, _, answered⟩)

theorem add_le_total
    {balance : Nat} (fit : Fit depositors bank ledger)
    (there : bank.customers[index]? = some customer) (told : customer.standing = .told balance) :
    balance + (index + 1) ≤ total depositors := by
  have standing : bank.protocol.standings[index]? = some (.told balance) := by
    simp [Bank.protocol, there, told]
  have answered := Ledger.hold?_eq_told (fit.lawful.accounts.holds index _ standing).symm
  have sum := tally_set Standing.share standing .done
  have most := tally_share_le (bank.protocol.standings.set index .done)
  have few : bank.protocol.standings.length ≤ depositors := by
    simpa [Bank.protocol] using fit.ordered.roll.length_le
  have known := fit.lawful.accounts.deposited
  rw [answered] at known
  simp only [Standing.share, Ledger.balance] at sum known
  rw [List.length_set] at most
  have bound := total_le few
  omega

section Stuck

variable (fit : Fit depositors bank ledger) (stuck : Stuck bank)

include fit stuck

theorem asked_eq_nil
    (created : bank.audit.hasCreatedAccount = true) (opened : bank.audit.hasClosedAccount = false) :
    bank.protocol.asked = [] := by
  have present := fit.ordered.opened.account.trans created
  obtain ⟨teller, there⟩ := Option.isSome_iff_exists.mp present
  have closed := fit.ordered.closed.account
  rw [opened, there] at closed
  rcases stuck.teller teller there with rfl | ⟨⟨balance, rfl⟩, -, silent, -⟩
  · simp [Teller.isOver] at closed
  · simp [Protocol.asked, Bank.protocol, silent, there, Teller.window, Window.asked]

theorem not_reads
    (there : bank.customers[index]? = some customer) (reply : Address) :
    customer ≠ .reads reply none := by
  rintro rfl
  obtain ⟨-, created, -, opened⟩ := fit.opened_of_living there nofun
  have standing : .asking reply ∈ bank.protocol.standings :=
    List.mem_map.mpr ⟨_, List.mem_of_getElem? there, rfl⟩
  have asked := (fit.lawful.asks.asking reply).mpr (.inr standing)
  rw [fit.asked_eq_nil stuck created opened] at asked
  cases asked

theorem keeper_eq
    (created : bank.audit.hasCreatedLock = true) (opened : bank.audit.hasClosedLock = false) :
    ∃ queue, bank.keeper = some (.receives queue) ∧ bank.requests = [] := by
  have present := fit.ordered.opened.lock.trans created
  obtain ⟨keeper, there⟩ := Option.isSome_iff_exists.mp present
  have closed := fit.ordered.closed.lock
  rw [opened, there] at closed
  rcases stuck.keeper keeper there with rfl | ⟨⟨queue, rfl⟩, calm, -⟩
  · simp [Keeper.isOver] at closed
  · exact ⟨queue, there, calm⟩

theorem vacant : ledger.holder? = none := by
  cases held : ledger.holder? with
  | none => rfl
  | some holder =>
      obtain ⟨hold, holds⟩ := Ledger.exists_hold held
      obtain ⟨index, inside, rfl⟩ := fit.lawful.accounts.holder _ _ holds
      have known := fit.lawful.accounts.holds index _ (List.getElem?_eq_getElem inside)
      have present : index < bank.customers.length := by simpa [Bank.protocol] using inside
      have there := List.getElem?_eq_getElem present
      have standing : bank.protocol.standings[index] = bank.customers[index].standing :=
        List.getElem_map _
      rw [holds, standing] at known
      rcases stuck.customers _ (List.getElem_mem present) with gone | ⟨grant, waits⟩ | ⟨reply, reads⟩
      · rw [gone] at known
        cases known
      · rw [waits] at known
        cases known
      · exact absurd reads (fit.not_reads stuck there reply)

theorem not_waits
    (there : bank.customers[index]? = some customer) (grant : Address) :
    customer ≠ .waits grant false := by
  rintro rfl
  obtain ⟨created, -, opened, -⟩ := fit.opened_of_living there nofun
  obtain ⟨queue, serves, calm⟩ := fit.keeper_eq stuck created opened
  have standing : .queued grant ∈ bank.protocol.standings :=
    List.mem_map.mpr ⟨_, List.mem_of_getElem? there, rfl⟩
  have tokens := fit.lawful.tokens
  have line := (fit.lawful.lines.queued grant).mpr standing
  rw [Tokens, fit.vacant stuck] at tokens
  cases queue with
  | nil => simp [Protocol.line, Bank.protocol, serves, calm, Keeper.desk, Desk.line] at line
  | cons => simp [Bank.protocol, serves, calm, Keeper.desk, Desk.held] at tokens

theorem all_gone :
    bank.audit = .gone ∧ bank.keeper = some .gone ∧ bank.teller = some .gone ∧
      bank.customers.length = depositors ∧ ∀ customer ∈ bank.customers, customer = .gone := by
  have gone : ∀ customer ∈ bank.customers, customer = .gone := by
    intro customer member
    obtain ⟨index, there⟩ := List.mem_iff_getElem?.mp member
    rcases stuck.customers customer member with gone | ⟨grant, waits⟩ | ⟨reply, reads⟩
    · exact gone
    · exact absurd waits (fit.not_waits stuck there grant)
    · exact absurd reads (fit.not_reads stuck there reply)
  have audit : bank.audit = .gone := by
    rcases stuck.audit with gone | ⟨reply, reads⟩ | ⟨next, rest, joins, waits⟩
    · exact gone
    · have review : bank.protocol.review = .asking reply := congrArg Audit.review reads
      have asked := (fit.lawful.asks.asking reply).mpr (.inl review)
      rw [fit.asked_eq_nil stuck (by rw [reads]; rfl) (by rw [reads]; rfl)] at asked
      cases asked
    · obtain ⟨first, owners, all, present, -⟩ := fit.ordered.roll.joined next rest joins
      rw [List.range'_succ, List.map_cons, List.map_cons, List.cons_eq_cons] at owners
      have inside : first < bank.customers.length := by omega
      have here := List.getElem?_eq_getElem inside
      rw [gone _ (List.getElem_mem inside)] at here
      exact absurd here (waits first owners.1)
  have closed := fit.ordered.closed
  have opened := fit.ordered.opened
  refine ⟨audit, ?_, ?_, (fit.ordered.roll.late (by rw [audit]; rfl)).1, gone⟩
  · have lock := closed.lock
    obtain ⟨keeper, there⟩ :=
      Option.isSome_iff_exists.mp (opened.lock.trans (by rw [audit]; rfl))
    rcases stuck.keeper keeper there with rfl | ⟨⟨queue, rfl⟩, -, pending⟩
    · exact there
    · rw [audit, there, pending] at lock
      cases lock
  · have account := closed.account
    obtain ⟨teller, there⟩ :=
      Option.isSome_iff_exists.mp (opened.account.trans (by rw [audit]; rfl))
    rcases stuck.teller teller there with rfl | ⟨⟨balance, rfl⟩, -, -, pending⟩
    · exact there
    · rw [audit, there, pending] at account
      cases account

end Stuck

end Fit

end Interleave.Deposits
