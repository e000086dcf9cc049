import Interleave.Proofs.Deposits.Depiction

namespace Interleave.Deposits

def Event.of? : Deed Body Message → Option Event
  | ⟨_, .send address .granted, .ok _⟩ => some (.grants address.owner)
  | ⟨_, .send address (.balance amount), .ok _⟩ => some (.answers address.owner amount)
  | ⟨id, .send _ (.store amount), .ok _⟩ => some (.stores id amount)
  | ⟨id, .send _ .release, .ok _⟩ => some (.releases id)
  | _ => none

variable {depositors index : Nat} {bank : Bank} {ledger : Ledger} {scene after : Scene Body Message}
  {deed : Option (Deed Body Message)} {customer : Customer}

/-- The bank makes a step, after which it is what the next scene shows. -/
def Continues (depositors : Nat) (bank : Bank) (deed : Option (Deed Body Message))
    (after : Scene Body Message) : Prop :=
  ∃ next, bank.Step depositors (deed.bind Event.of?) next ∧ Depicts depositors next after

theorem ofAction_receive
    {id : ActorId} {address : Address} (own : address.owner = id) (next : Body) :
    Prospect.ofAction id (.call (.receive address) next : Step) =
      .awaits (.receive address) next := by
  simp [Prospect.ofAction, Call.pending?, own]

section Effects

variable {lock account : Option (List Message)} {messages : List Message} {message : Message}
  {mails : ActorId → Option (Address × Option Message)} {owner : ActorId} {address : Address}
  {letter : Option Message} {reply : Reply Message}

theorem Stock.sendLock
    (stock : Stock (some messages) account mails scene.boxes)
    (effect : scene.Effect (.send lockAddress message) reply after) :
    reply = .ok .done ∧ after.prospects = scene.prospects ∧
      Stock (some (messages ++ [message])) account mails after.boxes := by
  cases effect with
  | send message found =>
      cases stock.eq_of_lock rfl found
      exact ⟨rfl, rfl, stock.setLock rfl _⟩

theorem Stock.sendAccount
    (stock : Stock lock (some messages) mails scene.boxes)
    (effect : scene.Effect (.send accountAddress message) reply after) :
    reply = .ok .done ∧ after.prospects = scene.prospects ∧
      Stock lock (some (messages ++ [message])) mails after.boxes := by
  cases effect with
  | send message found =>
      cases stock.eq_of_account rfl found
      exact ⟨rfl, rfl, stock.setAccount rfl _⟩

theorem Stock.sendMail
    (stock : Stock lock account mails scene.boxes) (uses : mails owner = some (address, none))
    (effect : scene.Effect (.send address message) reply after) :
    reply = .ok .done ∧ after.prospects = scene.prospects ∧
      Stock lock account (Function.update mails owner (some (address, some message)))
        after.boxes := by
  cases effect with
  | send message found =>
      obtain ⟨own, content⟩ := stock.found uses
      rw [content] at found
      cases found
      refine ⟨rfl, rfl, ?_⟩
      have filled : Stock lock account
          (Function.update mails address.owner (some (address, some message))) _ :=
        stock.setMail uses <| by
          rintro other letter ⟨⟩
          rfl
      rwa [held, if_pos rfl] at filled

theorem Stock.receiveLock
    (stock : Stock (some messages) account mails scene.boxes)
    (effect : scene.Effect (.receive lockAddress) reply after) :
    ∃ message rest, messages = message :: rest ∧ reply = .ok (.message message) ∧
      after.prospects = scene.prospects ∧ Stock (some rest) account mails after.boxes := by
  cases effect with
  | receive found =>
      cases stock.eq_of_lock rfl found
      exact ⟨_, _, rfl, rfl, rfl, stock.setLock rfl _⟩

theorem Stock.receiveAccount
    (stock : Stock lock (some messages) mails scene.boxes)
    (effect : scene.Effect (.receive accountAddress) reply after) :
    ∃ message rest, messages = message :: rest ∧ reply = .ok (.message message) ∧
      after.prospects = scene.prospects ∧ Stock lock (some rest) mails after.boxes := by
  cases effect with
  | receive found =>
      cases stock.eq_of_account rfl found
      exact ⟨_, _, rfl, rfl, rfl, stock.setAccount rfl _⟩

theorem Stock.receiveMail
    (stock : Stock lock account mails scene.boxes) (uses : mails owner = some (address, letter))
    (effect : scene.Effect (.receive address) reply after) :
    ∃ message, letter = some message ∧ reply = .ok (.message message) ∧
      after.prospects = scene.prospects ∧
        Stock lock account (Function.update mails owner none) after.boxes := by
  cases effect with
  | receive found =>
      obtain ⟨arrived, taken⟩ := stock.take uses found
      exact ⟨_, arrived, rfl, rfl, taken⟩

end Effects

section Customers

variable (fit : Fit depositors bank ledger) (depicts : Depicts depositors bank scene)
  (there : bank.customers[index]? = some customer)

include there

theorem mails_of_customer : mails bank.audit bank.customers (client index) = customer.mail? := by
  rw [mails_client, there, Option.bind_some]

theorem mails_same (now : Customer) (same : now.mail? = customer.mail?) :
    mails bank.audit (bank.customers.set index now) = mails bank.audit bank.customers := by
  rw [mails_set there now, same, ← mails_of_customer there, Function.update_eq_self]

include fit in
theorem opened_of_customer (living : customer ≠ .gone) :
    bank.keeper.isSome = true ∧ bank.lockClosed = false ∧ bank.teller.isSome = true ∧
      bank.accountClosed = false := by
  obtain ⟨lock, account, unlocked, unclosed⟩ := fit.opened_of_living there living
  have opened := fit.ordered.opened
  have closed := fit.ordered.closed
  exact ⟨opened.lock.trans lock, (Bool.or_eq_false_iff.mp (closed.lock.symm.trans unlocked)).1,
    opened.account.trans account,
    (Bool.or_eq_false_iff.mp (closed.account.symm.trans unclosed)).1⟩

include depicts

theorem continues_waits
    {grant : Address} {granted : Bool} (waits : customer = .waits grant granted)
    (acts : scene.Acts (program depositors true) (client index) (customer.prospect index) deed
      after) : Continues depositors bank deed after := by
  subst waits
  obtain ⟨cast, stock⟩ := depicts
  cases acts with
  | complete view effect =>
      obtain ⟨message, arrived, rfl, same, taken⟩ :=
        stock.receiveMail (mails_of_customer there) effect
      cases granted with
      | false => cases arrived
      | true =>
          cases arrived
          refine ⟨_, .customer there (.enter grant), ?_, ?_⟩
          · have goes : Prospect.ofAction (client index) ((program depositors true).resume view
                (Customer.prospect.body index .waiting) (.ok (.message .granted))) =
                  Customer.opens.prospect index := rfl
            rw [goes]
            dsimp only [Scene.place]
            rw [same]
            exact cast.setCustomer there .opens
          · dsimp only [Scene.place]
            rw [mails_set there .opens]
            exact taken

include fit

theorem continues_acquires
    {grant : Address} (acquires : customer = .acquires grant)
    (acts : scene.Acts (program depositors true) (client index) (customer.prospect index) deed
      after) : Continues depositors bank deed after := by
  subst acquires
  obtain ⟨cast, stock⟩ := depicts
  obtain ⟨created, opened, -, -⟩ := opened_of_customer fit there nofun
  obtain ⟨own, -⟩ := stock.found (mails_of_customer there)
  rw [opened, lockBox_eq created] at stock
  cases acts with
  | complete view effect =>
      obtain ⟨rfl, same, sent⟩ := stock.sendLock effect
      refine ⟨_, .acquire there own, ?_, ?_⟩
      · have goes : Prospect.ofAction (client index) ((program depositors true).resume view
            (Customer.prospect.body index (.acquiring grant)) (.ok .done)) =
              (Customer.waits grant false).prospect index := ofAction_receive own _
        rw [goes]
        dsimp only [Scene.place]
        rw [same]
        exact cast.setCustomer there (.waits grant false)
      · dsimp only [Scene.place]
        rw [mails_same there (.waits grant false) rfl, opened, lockBox_eq created]
        simpa [Request.message] using sent

theorem continues_opens
    (opens : customer = .opens)
    (acts : scene.Acts (program depositors true) (client index) (customer.prospect index) deed
      after) : Continues depositors bank deed after := by
  subst opens
  obtain ⟨cast, stock⟩ := depicts
  obtain ⟨-, -, created, -⟩ := opened_of_customer fit there nofun
  cases acts with
  | reply view retort =>
      cases retort with
      | answer answers => cases answers
      | mailbox =>
          refine ⟨_, .customer there (.inquire ⟨client index, scene.boxes.length⟩), ?_, ?_⟩
          · exact cast.setCustomer there (.inquires ⟨client index, scene.boxes.length⟩)
          · dsimp only [Scene.place]
            rw [mails_set there (.inquires ⟨client index, scene.boxes.length⟩)]
            exact stock.addMail (mails_of_customer there)
              (stock.two_le (by rw [accountBox_eq created]; rfl))

theorem continues_inquires
    {reply : Address} (inquires : customer = .inquires reply)
    (acts : scene.Acts (program depositors true) (client index) (customer.prospect index) deed
      after) : Continues depositors bank deed after := by
  subst inquires
  obtain ⟨cast, stock⟩ := depicts
  obtain ⟨-, -, created, opened⟩ := opened_of_customer fit there nofun
  obtain ⟨own, -⟩ := stock.found (mails_of_customer there)
  have silent := fit.silent_of_hold there rfl nofun
  rw [opened, accountBox_eq created, silent] at stock
  cases acts with
  | complete view effect =>
      obtain ⟨rfl, same, sent⟩ := stock.sendAccount effect
      refine ⟨_, .inquire there own silent, ?_, ?_⟩
      · have goes : Prospect.ofAction (client index) ((program depositors true).resume view
            (Customer.prospect.body index (.inquiring reply)) (.ok .done)) =
              (Customer.reads reply none).prospect index := ofAction_receive own _
        rw [goes]
        dsimp only [Scene.place]
        rw [same]
        exact cast.setCustomer there (.reads reply none)
      · dsimp only [Scene.place]
        rw [mails_same there (.reads reply none) rfl, opened, accountBox_eq created]
        simpa using sent

theorem continues_reads
    {reply : Address} {answer : Option Nat} (few : depositors * (depositors + 1) < wordSize)
    (reads : customer = .reads reply answer)
    (acts : scene.Acts (program depositors true) (client index) (customer.prospect index) deed
      after) : Continues depositors bank deed after := by
  subst reads
  obtain ⟨cast, stock⟩ := depicts
  cases acts with
  | complete view effect =>
      obtain ⟨message, arrived, rfl, same, taken⟩ :=
        stock.receiveMail (mails_of_customer there) effect
      cases answer with
      | none => cases arrived
      | some balance =>
          cases arrived
          have most := fit.add_le_total there rfl
          have small : balance + (index + 1) < wordSize := by
            have half := Nat.div_le_self (depositors * (depositors + 1)) 2
            exact Nat.lt_of_le_of_lt (Nat.le_trans most half) few
          refine ⟨_, .customer there (.store reply balance), ?_, ?_⟩
          · have goes : Prospect.ofAction (client index) ((program depositors true).resume view
                (Customer.prospect.body index .reading) (.ok (.message (.balance balance)))) =
                  (Customer.stores balance).prospect index :=
              congrArg (Prospect.ofAction (client index)) (if_pos small)
            rw [goes]
            dsimp only [Scene.place]
            rw [same]
            exact cast.setCustomer there (.stores balance)
          · dsimp only [Scene.place]
            rw [mails_set there (.stores balance)]
            exact taken

theorem continues_stores
    {balance : Nat} (stores : customer = .stores balance)
    (acts : scene.Acts (program depositors true) (client index) (customer.prospect index) deed
      after) : Continues depositors bank deed after := by
  subst stores
  obtain ⟨cast, stock⟩ := depicts
  obtain ⟨-, -, created, opened⟩ := opened_of_customer fit there nofun
  have silent := fit.silent_of_hold there rfl nofun
  have settled := fit.settled_of_told there rfl
  rw [opened, accountBox_eq created, silent, settled] at stock
  cases acts with
  | complete view effect =>
      obtain ⟨rfl, same, sent⟩ := stock.sendAccount effect
      refine ⟨_, .pay there settled silent, ?_, ?_⟩
      · dsimp only [Scene.place]
        rw [same]
        exact cast.setCustomer there .releases
      · dsimp only [Scene.place]
        rw [mails_same there .releases rfl, opened, accountBox_eq created, silent]
        exact sent

theorem continues_releases
    (releases : customer = .releases)
    (acts : scene.Acts (program depositors true) (client index) (customer.prospect index) deed
      after) : Continues depositors bank deed after := by
  subst releases
  obtain ⟨cast, stock⟩ := depicts
  obtain ⟨created, opened, -, -⟩ := opened_of_customer fit there nofun
  rw [opened, lockBox_eq created] at stock
  cases acts with
  | complete view effect =>
      obtain ⟨rfl, same, sent⟩ := stock.sendLock effect
      refine ⟨_, .release there, ?_, ?_⟩
      · dsimp only [Scene.place]
        rw [same]
        exact cast.setCustomer there .ends
      · dsimp only [Scene.place]
        rw [mails_same there .ends rfl, opened, lockBox_eq created]
        simpa [Request.message] using sent

theorem continues_customer
    (few : depositors * (depositors + 1) < wordSize)
    (acts : scene.Acts (program depositors true) (client index) (customer.prospect index) deed
      after) : Continues depositors bank deed after := by
  have moves : ∀ now, customer.Moves now → now.mail? = customer.mail? → deed.bind Event.of? = none →
      after = scene.place (client index) (now.prospect index) →
      Continues depositors bank deed after := by
    rintro now moves kept silent rfl
    obtain ⟨cast, stock⟩ := depicts
    refine ⟨{ bank with customers := bank.customers.set index now }, ?_,
      cast.setCustomer there now, ?_⟩
    · rw [silent]
      exact .customer there moves
    · dsimp only [Scene.place]
      rw [mails_same there now kept]
      exact stock
  cases place : customer with
  | begins grant =>
      subst place
      cases acts with
      | complete view effect =>
          cases effect
          exact moves (.acquires grant) (.acquire grant) rfl rfl rfl
  | acquires grant => exact continues_acquires fit depicts there place acts
  | waits grant granted => exact continues_waits depicts there place acts
  | opens => exact continues_opens fit depicts there place acts
  | inquires reply => exact continues_inquires fit depicts there place acts
  | reads reply answer => exact continues_reads fit depicts there few place acts
  | stores balance => exact continues_stores fit depicts there place acts
  | releases => exact continues_releases fit depicts there place acts
  | ends =>
      subst place
      cases acts
      exact moves .leaves .leave rfl rfl rfl
  | leaves =>
      subst place
      cases acts
      exact moves .gone .vanish rfl rfl rfl
  | gone =>
      subst place
      cases acts

end Customers

end Interleave.Deposits
