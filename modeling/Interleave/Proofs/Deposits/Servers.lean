import Interleave.Proofs.Deposits.Depositors

namespace Interleave.Deposits

section Standings

variable {customer : Customer} {audit : Audit}

theorem Customer.eq_waits {grant : Address} (queued : customer.standing = .queued grant) :
    customer = .waits grant false := by
  cases customer with
  | waits _ granted =>
      cases granted
      · cases queued
        rfl
      · cases queued
  | reads _ answer => cases answer <;> cases queued
  | _ => cases queued

theorem Customer.eq_reads {reply : Address} (asking : customer.standing = .asking reply) :
    customer = .reads reply none := by
  cases customer with
  | waits _ granted => cases granted <;> cases asking
  | reads _ answer =>
      cases answer
      · cases asking
        rfl
      · cases asking
  | _ => cases asking

theorem Audit.eq_reads {reply : Address} (asking : audit.review = .asking reply) :
    audit = .reads reply none := by
  cases audit with
  | reads _ answer =>
      cases answer
      · cases asking
        rfl
      · cases asking
  | _ => cases asking

end Standings

variable {depositors : Nat} {bank : Bank} {ledger : Ledger} {scene after : Scene Body Message}
  {deed : Option (Deed Body Message)}

namespace Fit

variable (fit : Fit depositors bank ledger)

include fit

theorem exists_waits
    {next : Address} {queue : List Address} (due : bank.keeper = some (.grants next queue)) :
    ∃ index : Nat, bank.customers[index]? = some (.waits next false) := by
  have first : next ∈ bank.protocol.line := by
    simp [Protocol.line, Bank.protocol, due, Keeper.desk, Desk.line]
  obtain ⟨customer, member, queued⟩ := List.mem_map.mp ((fit.lawful.lines.queued next).mp first)
  obtain ⟨index, there⟩ := List.mem_iff_getElem?.mp member
  exact ⟨index, by rw [there, Customer.eq_waits queued]⟩

theorem exists_holder
    {queue : List Address} {rest : List Request} (there : bank.keeper = some (.receives queue))
    (first : bank.requests = .release :: rest) : ∃ holder others, queue = holder :: others := by
  have tokens := fit.lawful.tokens
  cases queue with
  | nil => simp [Tokens, Bank.protocol, there, first, Keeper.desk, Desk.held] at tokens
  | cons holder others => exact ⟨holder, others, rfl⟩

theorem exists_reads
    {reply : Address} {balance : Nat} (due : bank.teller = some (.answers reply balance)) :
    bank.audit = .reads reply none ∨
      ∃ index : Nat, bank.customers[index]? = some (.reads reply none) := by
  have asked : reply ∈ bank.protocol.asked := by
    simp [Protocol.asked, Bank.protocol, due, Teller.window, Window.asked]
  rcases (fit.lawful.asks.asking reply).mp asked with asking | asking
  · exact .inl (Audit.eq_reads asking)
  · obtain ⟨customer, member, asking⟩ := List.mem_map.mp asking
    obtain ⟨index, there⟩ := List.mem_iff_getElem?.mp member
    exact .inr ⟨index, by rw [there, Customer.eq_reads asking]⟩

end Fit

section Keeper

variable {keeper : Keeper} (fit : Fit depositors bank ledger)
  (depicts : Depicts depositors bank scene) (there : bank.keeper = some keeper)

include there

include fit in
/-- What the lock server does with the first message in its mailbox. -/
theorem exists_handled
    {queue : List Address} {message : Message} {rest : List Message}
    (receives : keeper = .receives queue)
    (content : bank.requests.map Request.message ++ (if bank.lockClosed then [.close] else []) =
      message :: rest) :
    ∃ (now : Keeper) (requests : List Request) (closed : Bool),
      .ofAction lockAddress.owner
          ((LockServer.receiving lockAddress queue).advance (.message message)) = now.prospect ∧
        rest = requests.map Request.message ++ (if closed then [.close] else []) ∧
        bank.Step depositors none
          { bank with keeper := some now, requests := requests, lockClosed := closed } := by
  subst receives
  cases first : bank.requests with
  | nil =>
      rw [first] at content
      cases closed : bank.lockClosed with
      | false =>
          rw [closed] at content
          cases content
      | true =>
          rw [closed] at content
          cases content
          refine ⟨.ends, bank.requests, false, ?_, by rw [first]; rfl, .closeLock there first closed⟩
          cases queue <;> rfl
  | cons request requests =>
      rw [first] at content
      cases content
      cases request with
      | acquire grant =>
          cases queue with
          | nil => exact ⟨.grants grant [], requests, bank.lockClosed, rfl, rfl, .accept there first⟩
          | cons holder queue =>
              exact ⟨.receives (holder :: queue ++ [grant]), requests, bank.lockClosed,
                ofAction_receive rfl _, rfl, .enqueue there first⟩
      | release =>
          obtain ⟨holder, queue, rfl⟩ := fit.exists_holder there first
          cases queue with
          | nil =>
              exact ⟨.receives [], requests, bank.lockClosed, ofAction_receive rfl _, rfl,
                .idle there first⟩
          | cons next queue =>
              exact ⟨.grants next queue, requests, bank.lockClosed, rfl, rfl, .handOver there first⟩

include fit depicts

theorem continues_receives
    {queue : List Address} (receives : keeper = .receives queue)
    (acts : scene.Acts (program depositors true) lockAddress.owner keeper.prospect deed after) :
    Continues depositors bank deed after := by
  have stock := depicts.stock
  rw [lockBox_eq (by rw [there]; rfl)] at stock
  subst receives
  cases acts with
  | complete view effect =>
      obtain ⟨message, rest, content, rfl, same, taken⟩ := stock.receiveLock effect
      obtain ⟨now, requests, closed, goes, rfl, step⟩ := exists_handled fit there rfl content
      refine ⟨_, step, ?_, taken⟩
      dsimp only [Scene.place, program, resume, advance]
      rw [goes, same]
      exact depicts.cast.setKeeper (by rw [there]; rfl) now

theorem continues_grants
    {next : Address} {queue : List Address} (grants : keeper = .grants next queue)
    (acts : scene.Acts (program depositors true) lockAddress.owner keeper.prospect deed after) :
    Continues depositors bank deed after := by
  subst grants
  obtain ⟨cast, stock⟩ := depicts
  obtain ⟨index, waits⟩ := fit.exists_waits there
  have uses := mails_of_customer waits
  obtain ⟨own, -⟩ := stock.found uses
  cases acts with
  | complete view effect =>
      obtain ⟨rfl, same, sent⟩ := stock.sendMail uses effect
      have step : bank.Step depositors (some (.grants (client index))) _ := .grant there waits
      rw [← own] at step
      refine ⟨_, step, ?_, ?_⟩
      · have goes : Prospect.ofAction lockAddress.owner ((program depositors true).resume view
            (.lock (.granting lockAddress (next :: queue))) (.ok .done)) =
              (Keeper.receives (next :: queue)).prospect := ofAction_receive rfl _
        have kept : Cast depositors bank.audit bank.keeper bank.teller
            (bank.customers.set index (.waits next true)) scene.prospects :=
          cast.keepCustomer waits rfl
        dsimp only [Scene.place]
        rw [goes, same]
        exact kept.setKeeper (by rw [there]; rfl) (.receives (next :: queue))
      · dsimp only [Scene.place]
        rw [mails_set waits]
        rw [lockBox_eq (by rw [there]; rfl)] at sent
        exact sent

theorem continues_keeper
    (acts : scene.Acts (program depositors true) lockAddress.owner keeper.prospect deed after) :
    Continues depositors bank deed after := by
  have moves : ∀ now, keeper.Moves now → deed.bind Event.of? = none →
      after = scene.place lockAddress.owner now.prospect → Continues depositors bank deed after := by
    rintro now moves silent rfl
    obtain ⟨cast, stock⟩ := depicts
    refine ⟨{ bank with keeper := some now }, ?_, cast.setKeeper (by rw [there]; rfl) now, ?_⟩
    · rw [silent]
      exact .keeper there moves
    · rw [lockBox_eq (by rw [there]; rfl)] at stock
      exact stock
  cases place : keeper with
  | begins =>
      subst place
      cases acts with
      | complete view effect =>
          cases effect
          exact moves (.receives []) .receive rfl rfl
  | receives queue => exact continues_receives fit depicts there place acts
  | grants next queue => exact continues_grants fit depicts there place acts
  | ends =>
      subst place
      cases acts
      exact moves .leaves .leave rfl rfl
  | leaves =>
      subst place
      cases acts
      exact moves .gone .vanish rfl rfl
  | gone =>
      subst place
      cases acts

end Keeper

section Teller

variable {teller : Teller} (fit : Fit depositors bank ledger)
  (depicts : Depicts depositors bank scene) (there : bank.teller = some teller)

include there

theorem exists_settled
    {balance : Nat} {message : Message} {rest : List Message} (receives : teller = .receives balance)
    (content : bank.stored.toList.map .store ++ bank.question.toList.map .inquire ++
      (if bank.accountClosed then [.close] else []) = message :: rest) :
    ∃ (now : Teller) (stored : Option Nat) (question : Option Address) (closed : Bool),
      .ofAction accountAddress.owner
          ((AccountServer.receiving accountAddress balance).advance (.message message)) =
        now.prospect ∧
        rest = stored.toList.map .store ++ question.toList.map .inquire ++
          (if closed then [.close] else []) ∧
        bank.Step depositors none { bank with
          teller := some now
          stored := stored
          question := question
          accountClosed := closed } := by
  subst receives
  cases settled : bank.stored with
  | some amount =>
      rw [settled] at content
      cases content
      exact ⟨.receives amount, none, bank.question, bank.accountClosed, ofAction_receive rfl _, rfl,
        .credit there settled⟩
  | none =>
      rw [settled] at content
      cases asked : bank.question with
      | some reply =>
          rw [asked] at content
          cases content
          refine ⟨.answers reply balance, bank.stored, none, bank.accountClosed, rfl, ?_,
            .attend there settled asked⟩
          rw [settled]
          rfl
      | none =>
          rw [asked] at content
          cases closed : bank.accountClosed with
          | false =>
              rw [closed] at content
              cases content
          | true =>
              rw [closed] at content
              cases content
              refine ⟨.ends, bank.stored, bank.question, false, rfl, ?_,
                .closeAccount there settled asked closed⟩
              rw [settled, asked]
              rfl

include depicts

theorem continues_balance
    {balance : Nat} (receives : teller = .receives balance)
    (acts : scene.Acts (program depositors true) accountAddress.owner teller.prospect deed after) :
    Continues depositors bank deed after := by
  have stock := depicts.stock
  rw [accountBox_eq (by rw [there]; rfl)] at stock
  subst receives
  cases acts with
  | complete view effect =>
      obtain ⟨message, rest, content, rfl, same, taken⟩ := stock.receiveAccount effect
      obtain ⟨now, stored, question, closed, goes, rfl, step⟩ := exists_settled there rfl content
      refine ⟨_, step, ?_, taken⟩
      dsimp only [Scene.place, program, resume, advance]
      rw [goes, same]
      exact depicts.cast.setTeller (by rw [there]; rfl) now

include fit

theorem continues_answers
    {reply : Address} {balance : Nat} (answers : teller = .answers reply balance)
    (acts : scene.Acts (program depositors true) accountAddress.owner teller.prospect deed after) :
    Continues depositors bank deed after := by
  subst answers
  obtain ⟨cast, stock⟩ := depicts
  have goes : ∀ view, Prospect.ofAction accountAddress.owner ((program depositors true).resume view
      (.account (.answering accountAddress balance)) (.ok .done)) =
        (Teller.receives balance).prospect := fun _ => ofAction_receive rfl _
  rcases fit.exists_reads there with reads | ⟨index, reads⟩
  · have uses : mails bank.audit bank.customers .root = some (reply, none) := by
      rw [reads]
      rfl
    obtain ⟨own, -⟩ := stock.found uses
    cases acts with
    | complete view effect =>
        obtain ⟨rfl, same, sent⟩ := stock.sendMail uses effect
        have step : bank.Step depositors (some (.answers .root balance)) _ := .report there reads
        rw [← own] at step
        refine ⟨_, step, ?_, ?_⟩
        · have kept : Cast depositors (.reads reply (some balance)) bank.keeper bank.teller
              bank.customers scene.prospects := by
            have known := cast.audit
            rw [reads] at known
            exact ⟨known, cast.keeper, cast.teller, cast.customers⟩
          dsimp only [Scene.place]
          rw [goes, same]
          exact kept.setTeller (by rw [there]; rfl) (.receives balance)
        · dsimp only [Scene.place]
          rw [mails_root bank.audit]
          rw [accountBox_eq (by rw [there]; rfl)] at sent
          exact sent
  · have uses := mails_of_customer reads
    obtain ⟨own, -⟩ := stock.found uses
    cases acts with
    | complete view effect =>
        obtain ⟨rfl, same, sent⟩ := stock.sendMail uses effect
        have step : bank.Step depositors (some (.answers (client index) balance)) _ :=
          .tell there reads
        rw [← own] at step
        refine ⟨_, step, ?_, ?_⟩
        · have kept : Cast depositors bank.audit bank.keeper bank.teller
              (bank.customers.set index (.reads reply (some balance))) scene.prospects :=
            cast.keepCustomer reads rfl
          dsimp only [Scene.place]
          rw [goes, same]
          exact kept.setTeller (by rw [there]; rfl) (.receives balance)
        · dsimp only [Scene.place]
          rw [mails_set reads]
          rw [accountBox_eq (by rw [there]; rfl)] at sent
          exact sent

theorem continues_teller
    (acts : scene.Acts (program depositors true) accountAddress.owner teller.prospect deed after) :
    Continues depositors bank deed after := by
  have moves : ∀ now, teller.Moves now → deed.bind Event.of? = none →
      after = scene.place accountAddress.owner now.prospect →
      Continues depositors bank deed after := by
    rintro now moves silent rfl
    obtain ⟨cast, stock⟩ := depicts
    refine ⟨{ bank with teller := some now }, ?_, cast.setTeller (by rw [there]; rfl) now, ?_⟩
    · rw [silent]
      exact .teller there moves
    · rw [accountBox_eq (by rw [there]; rfl)] at stock
      exact stock
  cases place : teller with
  | begins =>
      subst place
      cases acts with
      | complete view effect =>
          cases effect
          exact moves (.receives 0) .receive rfl rfl
  | receives balance => exact continues_balance depicts there place acts
  | answers reply balance => exact continues_answers fit depicts there place acts
  | ends =>
      subst place
      cases acts
      exact moves .leaves .leave rfl rfl
  | leaves =>
      subst place
      cases acts
      exact moves .gone .vanish rfl rfl
  | gone =>
      subst place
      cases acts

end Teller

end Interleave.Deposits
