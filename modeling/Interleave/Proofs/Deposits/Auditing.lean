import Interleave.Proofs.Deposits.Servers

namespace Interleave.Deposits

variable {depositors : Nat} {bank : Bank} {ledger : Ledger} {scene after : Scene Body Message}
  {deed : Option (Deed Body Message)} {audit : Audit}

theorem ofAction_join (depositors : Nat) (rest : List Address) :
    Prospect.ofAction .root (Auditor.join depositors true lockAddress accountAddress rest) =
      (Audit.joining rest).prospect depositors := by
  cases rest <;> rfl

theorem ofAction_create (depositors : Nat) (made : List Address) :
    Prospect.ofAction .root (Auditor.create depositors true lockAddress accountAddress made) =
      (Audit.creating depositors made).prospect depositors := by
  unfold Auditor.create Audit.creating
  split
  · rfl
  · exact ofAction_join depositors made

@[simp] theorem Audit.mail?_joining (rest : List Address) : (joining rest).mail? = none := by
  cases rest <;> rfl

@[simp] theorem Audit.mail?_creating (made : List Address) :
    (creating depositors made).mail? = none := by
  unfold creating
  split
  · rfl
  · exact mail?_joining made

theorem mails_keep
    (there : bank.audit = audit) (now : Audit) (same : now.mail? = audit.mail?) :
    mails now bank.customers = mails bank.audit bank.customers := by
  rw [mails_root bank.audit now, same, there]
  exact Function.update_eq_self ActorId.root (mails audit bank.customers)

theorem Customer.eq_gone {customer : Customer} {index : Nat}
    (left : customer.prospect index = .gone) : customer = .gone := by
  cases customer <;> first | rfl | cases left

namespace Fit

variable (fit : Fit depositors bank ledger) (there : bank.audit = audit)

include fit there

theorem opened_lock (created : audit.hasCreatedLock = true) (closed : audit.hasClosedLock = false) :
    bank.keeper.isSome = true ∧ bank.lockClosed = false := by
  subst there
  exact ⟨fit.ordered.opened.lock.trans created,
    (Bool.or_eq_false_iff.mp (fit.ordered.closed.lock.symm.trans closed)).1⟩

theorem opened_account
    (created : audit.hasCreatedAccount = true) (closed : audit.hasClosedAccount = false) :
    bank.teller.isSome = true ∧ bank.accountClosed = false := by
  subst there
  exact ⟨fit.ordered.opened.account.trans created,
    (Bool.or_eq_false_iff.mp (fit.ordered.closed.account.symm.trans closed)).1⟩

theorem silent_of_late (late : audit.isLate = true) (ahead : audit.review = .ahead) :
    bank.question = none := by
  subst there
  have nobody : bank.protocol.asked = [] := by
    rw [List.eq_nil_iff_forall_not_mem]
    intro reply member
    rcases (fit.lawful.asks.asking reply).mp member with asking | asking
    · have same : bank.protocol.review = .ahead := ahead
      rw [same] at asking
      cases asking
    · obtain ⟨customer, listed, asking⟩ := List.mem_map.mp asking
      rw [(fit.ordered.roll.late late).2 customer listed] at asking
      cases asking
  exact Option.toList_eq_nil_iff.mp (List.append_eq_nil_iff.mp nobody).1

theorem balance_of_late (late : audit.isLate = true) : ledger.balance = total depositors := by
  subst there
  obtain ⟨all, gone⟩ := fit.ordered.roll.late late
  have done : ∀ standing ∈ bank.protocol.standings, standing = .done := by
    intro standing member
    obtain ⟨customer, listed, rfl⟩ := List.mem_map.mp member
    rw [gone customer listed]
    rfl
  rw [fit.lawful.accounts.deposited, tally_share_of_done done]
  simp [Bank.protocol, all]

theorem balance_eq {balance : Nat} (knows : audit.balance? = some balance) :
    balance = total depositors := by
  have late : audit.isLate = true := by
    cases audit with
    | reads | closesAccount | closesLock => rfl
    | _ => cases knows
  have deposited := fit.balance_of_late there late
  subst there
  rw [fit.known balance knows] at deposited
  exact deposited

end Fit

section Root

variable (fit : Fit depositors bank ledger) (depicts : Depicts depositors bank scene)
  (there : bank.audit = audit)

include depicts there

theorem continues_of_moves
    (now : Audit) (moves : audit.Moves now) (kept : now.mail? = audit.mail?) :
    Continues depositors bank none (scene.place .root (now.prospect depositors)) := by
  refine ⟨_, .audit there moves, depicts.cast.setAudit now, ?_⟩
  dsimp only [Scene.place]
  rw [mails_keep there now kept]
  exact depicts.stock

theorem continues_learns
    {reply : Address} {answer : Option Nat} (reads : audit = .reads reply answer)
    (acts : scene.Acts (program depositors true) .root (audit.prospect depositors) deed after) :
    Continues depositors bank deed after := by
  subst reads
  obtain ⟨cast, stock⟩ := depicts
  have uses : mails bank.audit bank.customers .root = some (reply, answer.map .balance) := by
    rw [there]
    rfl
  cases acts with
  | complete view effect =>
      obtain ⟨message, arrived, rfl, same, taken⟩ := stock.receiveMail uses effect
      cases answer with
      | none => cases arrived
      | some balance =>
          cases arrived
          refine ⟨_, .audit there (.close reply balance), ?_, ?_⟩
          · dsimp only [Scene.place]
            rw [same]
            exact cast.setAudit (.closesAccount balance)
          · dsimp only [Scene.place]
            rw [mails_root bank.audit]
            exact taken

include fit

theorem continues_createsLock
    (creates : audit = .createsLock)
    (acts : scene.Acts (program depositors true) .root (audit.prospect depositors) deed after) :
    Continues depositors bank deed after := by
  subst creates
  obtain ⟨cast, stock⟩ := depicts
  have nobody := fit.ordered.roll.early (.inl there)
  have unlocked : bank.keeper = none := by
    simpa [there, Audit.hasCreatedLock] using fit.ordered.opened.lock
  have unopened : bank.teller = none := by
    simpa [there, Audit.hasCreatedAccount] using fit.ordered.opened.account
  rw [nobody, unlocked, unopened] at cast
  rw [nobody, unlocked, unopened] at stock
  have fresh : scene.fresh = lockAddress := by
    unfold Scene.fresh
    rw [cast.length_of_none, stock.eq_nil]
    rfl
  cases acts with
  | complete view effect =>
      cases effect
      refine ⟨_, .createLock there, ?_, ?_⟩
      · dsimp only [Scene.place, Scene.withActor]
        rw [fresh, nobody, unopened]
        exact cast.addKeeper.setAudit .createsAccount
      · have unclosed := fit.ordered.closed.lock
        rw [there, unlocked] at unclosed
        have opened := (Bool.or_eq_false_iff.mp unclosed.symm).1
        dsimp only [Scene.place, Scene.withActor, Scene.withBox]
        rw [fresh, mails_keep there .createsAccount rfl, nobody, fit.ordered.blank.requests unlocked,
          opened, unopened]
        exact stock.addLock

theorem continues_createsAccount
    (creates : audit = .createsAccount)
    (acts : scene.Acts (program depositors true) .root (audit.prospect depositors) deed after) :
    Continues depositors bank deed after := by
  subst creates
  obtain ⟨cast, stock⟩ := depicts
  have nobody := fit.ordered.roll.early (.inr there)
  obtain ⟨keeper, serves⟩ := Option.isSome_iff_exists.mp (fit.opened_lock there rfl rfl).1
  have unopened : bank.teller = none := by
    simpa [there, Audit.hasCreatedAccount] using fit.ordered.opened.account
  rw [nobody, serves, unopened] at cast
  rw [nobody, serves, unopened] at stock
  have fresh : scene.fresh = accountAddress := by
    unfold Scene.fresh
    rw [cast.length_of_keeper, stock.length_of_lock]
    rfl
  cases acts with
  | complete view effect =>
      cases effect
      refine ⟨_, .createAccount there, ?_, ?_⟩
      · have goes : Prospect.ofAction .root ((program depositors true).resume view
            (Audit.prospect.body depositors (.creatingAccount lockAddress))
              (.ok (.mailbox accountAddress))) =
                (Audit.creating depositors []).prospect depositors := ofAction_create depositors []
        dsimp only [Scene.place, Scene.withActor]
        rw [fresh, goes, nobody, serves]
        exact cast.addTeller.setAudit (.creating depositors [])
      · have unclosed := fit.ordered.closed.account
        rw [there, unopened] at unclosed
        have opened := (Bool.or_eq_false_iff.mp unclosed.symm).1
        dsimp only [Scene.place, Scene.withActor, Scene.withBox]
        rw [fresh, mails_keep there _ (Audit.mail?_creating []), nobody, serves,
          fit.ordered.blank.stored unopened, fit.ordered.blank.question unopened, opened]
        exact stock.addAccount

theorem continues_creates
    {made : List Address} (creates : audit = .creates made)
    (acts : scene.Acts (program depositors true) .root (audit.prospect depositors) deed after) :
    Continues depositors bank deed after := by
  subst creates
  obtain ⟨cast, stock⟩ := depicts
  obtain ⟨missing, owners⟩ := fit.ordered.roll.made made there
  have count : made.length = bank.customers.length := by simpa using congrArg List.length owners
  obtain ⟨created, opened⟩ := fit.opened_account there rfl rfl
  have size := cast.length created
  have owner : scene.fresh.owner = client bank.customers.length := congrArg ActorId.mk size
  cases acts with
  | complete view effect =>
      cases effect
      refine ⟨_, .create there owner, ?_, ?_⟩
      · have goes : Prospect.ofAction .root ((program depositors true).resume view
            (Audit.prospect.body depositors (.creatingDepositor lockAddress accountAddress made))
              (.ok (.mailbox scene.fresh))) =
                (Audit.creating depositors (made ++ [scene.fresh])).prospect depositors :=
          ofAction_create depositors (made ++ [scene.fresh])
        dsimp only [Scene.place]
        rw [goes, count]
        exact (cast.addCustomer created (.begins scene.fresh)).setAudit _
      · dsimp only [Scene.place, Scene.withActor, Scene.withBox]
        rw [mails_append, mails_keep there _ (Audit.mail?_creating _), owner]
        have mail : (Customer.begins scene.fresh).mail? =
            some (⟨client bank.customers.length, scene.boxes.length⟩, none) := by
          rw [← owner]
          rfl
        rw [mail]
        refine stock.addMail ?_ (stock.two_le (by rw [accountBox_eq created]; rfl))
        rw [mails_client, List.getElem?_eq_none (Nat.le_refl _)]
        rfl

theorem continues_joins
    {next : Address} {rest : List Address} (joins : audit = .joins next rest)
    (acts : scene.Acts (program depositors true) .root (audit.prospect depositors) deed after) :
    Continues depositors bank deed after := by
  subst joins
  obtain ⟨cast, stock⟩ := depicts
  obtain ⟨first, owners, all, present, -⟩ := fit.ordered.roll.joined next rest there
  rw [List.range'_succ, List.map_cons, List.map_cons, List.cons_eq_cons] at owners
  have inside : first < bank.customers.length := by omega
  cases acts with
  | complete view effect =>
      cases effect with
      | join strict gone =>
          rw [owners.1, show (client first).index = first + 3 from rfl, cast.customers] at gone
          obtain ⟨customer, here, same⟩ := Option.map_eq_some_iff.mp gone
          refine ⟨_, .join there owners.1 (by rw [here, Customer.eq_gone same]), ?_, ?_⟩
          · have goes : Prospect.ofAction .root ((program depositors true).resume view
                (Audit.prospect.body depositors (.joining lockAddress accountAddress rest))
                  (.ok .done)) = (Audit.joining rest).prospect depositors :=
              ofAction_join depositors rest
            rw [goes]
            exact cast.setAudit (.joining rest)
          · dsimp only [Scene.place]
            rw [mails_keep there _ (Audit.mail?_joining rest)]
            exact stock

theorem continues_opensAudit
    (opens : audit = .opens)
    (acts : scene.Acts (program depositors true) .root (audit.prospect depositors) deed after) :
    Continues depositors bank deed after := by
  subst opens
  obtain ⟨cast, stock⟩ := depicts
  obtain ⟨created, -⟩ := fit.opened_account there rfl rfl
  cases acts with
  | reply view retort =>
      cases retort with
      | answer answers => cases answers
      | mailbox =>
          refine ⟨_, .audit there (.inquire ⟨.root, scene.boxes.length⟩), ?_, ?_⟩
          · exact cast.setAudit (.inquires ⟨.root, scene.boxes.length⟩)
          · dsimp only [Scene.place]
            rw [mails_root bank.audit]
            refine stock.addMail ?_ (stock.two_le (by rw [accountBox_eq created]; rfl))
            rw [there]
            rfl

theorem continues_asks
    {reply : Address} (inquires : audit = .inquires reply)
    (acts : scene.Acts (program depositors true) .root (audit.prospect depositors) deed after) :
    Continues depositors bank deed after := by
  subst inquires
  obtain ⟨cast, stock⟩ := depicts
  obtain ⟨created, opened⟩ := fit.opened_account there rfl rfl
  have silent := fit.silent_of_late there rfl rfl
  have uses : mails bank.audit bank.customers .root = some (reply, none) := by
    rw [there]
    rfl
  obtain ⟨own, -⟩ := stock.found uses
  rw [opened, accountBox_eq created, silent] at stock
  cases acts with
  | complete view effect =>
      obtain ⟨rfl, same, sent⟩ := stock.sendAccount effect
      refine ⟨_, .ask there silent, ?_, ?_⟩
      · have goes : Prospect.ofAction .root ((program depositors true).resume view
            (Audit.prospect.body depositors (.inquiring lockAddress accountAddress reply))
              (.ok .done)) = (Audit.reads reply none).prospect depositors := ofAction_receive own _
        dsimp only [Scene.place]
        rw [goes, same]
        exact cast.setAudit (.reads reply none)
      · dsimp only [Scene.place]
        rw [mails_keep there (.reads reply none) rfl, opened, accountBox_eq created]
        simpa using sent

theorem continues_closesAccount
    {balance : Nat} (closes : audit = .closesAccount balance)
    (acts : scene.Acts (program depositors true) .root (audit.prospect depositors) deed after) :
    Continues depositors bank deed after := by
  subst closes
  obtain ⟨cast, stock⟩ := depicts
  obtain ⟨created, opened⟩ := fit.opened_account there rfl rfl
  rw [opened, accountBox_eq created] at stock
  cases acts with
  | complete view effect =>
      obtain ⟨rfl, same, sent⟩ := stock.sendAccount effect
      refine ⟨_, .shutAccount there, ?_, ?_⟩
      · dsimp only [Scene.place]
        rw [same]
        exact cast.setAudit (.closesLock balance)
      · dsimp only [Scene.place]
        rw [mails_keep there (.closesLock balance) rfl, accountBox_eq created]
        simpa using sent

theorem continues_closesLock
    {balance : Nat} (few : depositors * (depositors + 1) < wordSize)
    (closes : audit = .closesLock balance)
    (acts : scene.Acts (program depositors true) .root (audit.prospect depositors) deed after) :
    Continues depositors bank deed after := by
  subst closes
  obtain ⟨cast, stock⟩ := depicts
  obtain ⟨created, opened⟩ := fit.opened_lock there rfl rfl
  have right := fit.balance_eq there rfl
  rw [opened, lockBox_eq created] at stock
  cases acts with
  | complete view effect =>
      obtain ⟨rfl, same, sent⟩ := stock.sendLock effect
      refine ⟨_, .shutLock there, ?_, ?_⟩
      · have goes : (program depositors true).resume view
            (Audit.prospect.body depositors (.closingLock balance)) (.ok .done) = .return (.ok ()) :=
          (if_pos few).trans (if_pos right)
        dsimp only [Scene.place]
        rw [goes, same]
        exact cast.setAudit .ends
      · dsimp only [Scene.place]
        rw [mails_keep there .ends rfl, lockBox_eq created]
        simpa using sent

theorem continues_audit
    (few : depositors * (depositors + 1) < wordSize)
    (acts : scene.Acts (program depositors true) .root (audit.prospect depositors) deed after) :
    Continues depositors bank deed after := by
  cases place : audit with
  | createsLock => exact continues_createsLock fit depicts there place acts
  | createsAccount => exact continues_createsAccount fit depicts there place acts
  | creates made => exact continues_creates fit depicts there place acts
  | joins next rest => exact continues_joins fit depicts there place acts
  | opens => exact continues_opensAudit fit depicts there place acts
  | inquires reply => exact continues_asks fit depicts there place acts
  | reads reply answer => exact continues_learns depicts there place acts
  | closesAccount balance => exact continues_closesAccount fit depicts there place acts
  | closesLock balance => exact continues_closesLock fit depicts there few place acts
  | ends =>
      subst place
      cases acts
      exact continues_of_moves depicts there .leaves .leave rfl
  | leaves =>
      subst place
      cases acts
      exact continues_of_moves depicts there .gone .vanish rfl
  | gone =>
      subst place
      cases acts

end Root

/-- Whatever an actor does is a step of the bank. -/
theorem exists_continues
    (fit : Fit depositors bank ledger) (depicts : Depicts depositors bank scene)
    (few : depositors * (depositors + 1) < wordSize)
    (step : scene.Step (program depositors true) deed after) :
    Continues depositors bank deed after := by
  obtain ⟨⟨position⟩, prospect, there, acts⟩ := step
  rcases depicts.cast.cases there with ⟨rfl, rfl⟩ | ⟨rfl, keeper, serves, rfl⟩ |
    ⟨rfl, teller, serves, rfl⟩ | ⟨index, customer, rfl, here, rfl⟩
  · exact continues_audit fit depicts rfl few acts
  · exact continues_keeper fit depicts serves acts
  · exact continues_teller fit depicts serves acts
  · exact continues_customer fit depicts here few acts

section Scenes

variable (fit : Fit depositors bank ledger) (depicts : Depicts depositors bank scene)

include fit depicts

theorem tame_of_depicts : scene.Tame where
  ends := by
    intro position result there
    rcases depicts.cast.cases there with ⟨-, same⟩ | ⟨-, keeper, -, same⟩ |
      ⟨-, teller, -, same⟩ | ⟨index, customer, -, -, same⟩
    · cases place : bank.audit <;> rw [place] at same <;> cases same
      rfl
    · cases keeper <;> cases same
      rfl
    · cases teller <;> cases same
      rfl
    · cases customer <;> cases same
      rfl
  joins := by
    intro position other strict body there
    rcases depicts.cast.cases there with ⟨-, same⟩ | ⟨-, keeper, -, same⟩ |
      ⟨-, teller, -, same⟩ | ⟨index, customer, -, -, same⟩
    · cases place : bank.audit with
      | joins next rest =>
          rw [place] at same
          cases same
          obtain ⟨first, owners, all, present, -⟩ := fit.ordered.roll.joined next rest place
          rw [List.range'_succ, List.map_cons, List.map_cons, List.cons_eq_cons] at owners
          rw [owners.1, depicts.cast.length (fit.opened_account place rfl rfl).1, present]
          exact Nat.add_lt_add_right (by omega) 3
      | _ =>
          rw [place] at same
          cases same
    · cases keeper <;> cases same
    · cases teller <;> cases same
    · cases customer <;> cases same

theorem length_of_depicts : scene.prospects.length ≤ depositors + 3 := by
  cases opened : bank.teller with
  | none =>
      have few := depicts.cast.teller
      rw [opened] at few
      have few := List.getElem?_eq_none_iff.mp few
      omega
  | some teller =>
      rw [depicts.cast.length (by rw [opened]; rfl)]
      exact Nat.add_le_add_right fit.ordered.roll.length_le 3

omit fit in
theorem Customer.stalls
    {customer : Customer} {index : Nat} (there : bank.customers[index]? = some customer)
    (stalls : scene.Stalls (customer.prospect index)) :
    customer = .gone ∨ (∃ grant, customer = .waits grant false) ∨
      ∃ reply, customer = .reads reply none := by
  have uses := mails_of_customer there
  cases customer with
  | waits grant granted =>
      cases stalls with
      | receive body empty =>
          obtain ⟨-, content⟩ := depicts.stock.found uses
          rw [empty] at content
          cases granted with
          | false => exact .inr (.inl ⟨grant, rfl⟩)
          | true => cases content
  | reads reply answer =>
      cases stalls with
      | receive body empty =>
          obtain ⟨-, content⟩ := depicts.stock.found uses
          rw [empty] at content
          cases answer with
          | none => exact .inr (.inr ⟨reply, rfl⟩)
          | some balance => cases content
  | gone => exact .inl rfl
  | _ => cases stalls

omit fit in
theorem Keeper.stalls
    {keeper : Keeper} (there : bank.keeper = some keeper) (stalls : scene.Stalls keeper.prospect) :
    keeper = .gone ∨ (∃ queue, keeper = .receives queue) ∧ bank.requests = [] ∧
      bank.lockClosed = false := by
  cases keeper with
  | receives queue =>
      cases stalls with
      | @receive _ owner body empty =>
          have content := depicts.stock.lock
          rw [lockBox_eq (by rw [there]; rfl), show scene.boxes[0]? = _ from empty] at content
          have drained : owner = lockAddress.owner ∧ bank.requests = [] ∧
            bank.lockClosed = false := by simpa using content
          exact .inr ⟨⟨queue, rfl⟩, drained.2⟩
  | gone => exact .inl rfl
  | _ => cases stalls

omit fit in
theorem Teller.stalls
    {teller : Teller} (there : bank.teller = some teller) (stalls : scene.Stalls teller.prospect) :
    teller = .gone ∨ (∃ balance, teller = .receives balance) ∧ bank.stored = none ∧
      bank.question = none ∧ bank.accountClosed = false := by
  cases teller with
  | receives balance =>
      cases stalls with
      | @receive _ owner body empty =>
          have content := depicts.stock.account
          rw [accountBox_eq (by rw [there]; rfl), show scene.boxes[1]? = _ from empty] at content
          have drained : owner = accountAddress.owner ∧ bank.stored = none ∧
            bank.question = none ∧ bank.accountClosed = false := by simpa using content
          exact .inr ⟨⟨balance, rfl⟩, drained.2⟩
  | gone => exact .inl rfl
  | _ => cases stalls

omit fit in
theorem Audit.stalls (stalls : scene.Stalls (bank.audit.prospect depositors)) :
    bank.audit = .gone ∨ (∃ reply, bank.audit = .reads reply none) ∨
      ∃ next rest, bank.audit = .joins next rest ∧
        ∀ index, next.owner = client index → bank.customers[index]? ≠ some .gone := by
  cases place : bank.audit with
  | reads reply answer =>
      rw [place] at stalls
      cases stalls with
      | receive body empty =>
          have uses : mails bank.audit bank.customers .root = some (reply, answer.map .balance) := by
            rw [place]
            rfl
          obtain ⟨-, content⟩ := depicts.stock.found uses
          rw [empty] at content
          cases answer with
          | none => exact .inr (.inl ⟨reply, rfl⟩)
          | some balance => cases content
  | joins next rest =>
      rw [place] at stalls
      cases stalls with
      | join strict body living =>
          refine .inr (.inr ⟨next, rest, rfl, ?_⟩)
          intro index owner gone
          rw [owner, show (client index).index = index + 3 from rfl, depicts.cast.customers,
            gone] at living
          exact living rfl
  | gone => exact .inl rfl
  | _ =>
      rw [place] at stalls
      cases stalls

omit fit in
theorem stuck_of_still (still : scene.Still) : Stuck bank where
  keeper keeper there := by
    have here := depicts.cast.keeper
    rw [there] at here
    exact Keeper.stalls depicts there (still _ (List.mem_of_getElem? here))
  teller teller there := by
    have here := depicts.cast.teller
    rw [there] at here
    exact Teller.stalls depicts there (still _ (List.mem_of_getElem? here))
  customers customer member := by
    obtain ⟨index, there⟩ := List.mem_iff_getElem?.mp member
    have here := depicts.cast.customers index
    rw [there] at here
    exact Customer.stalls depicts there (still _ (List.mem_of_getElem? here))
  audit := Audit.stalls depicts (still _ (List.mem_of_getElem? depicts.cast.audit))

end Scenes

end Interleave.Deposits
