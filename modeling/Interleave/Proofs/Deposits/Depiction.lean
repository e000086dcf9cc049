import Mathlib.Logic.Function.Basic
import Interleave.Proofs.Deposits.Fit
import Interleave.Proofs.Scene.Unfolding

namespace Interleave.Deposits

/-- The first mailbox is that of the lock server, which is created first, and the second that of the
account. -/
def lockAddress : Address := ⟨⟨1⟩, 0⟩

def accountAddress : Address := ⟨⟨2⟩, 1⟩

namespace Customer

def prospect (index : Nat) : Customer → Prospect Body Message
  | begins grant => .awaits (.start (.mailbox grant)) (body .start)
  | acquires grant => .awaits (.send lockAddress (.acquire grant)) (body (.acquiring grant))
  | waits grant _ => .awaits (.receive grant) (body .waiting)
  | opens => .calls .mailbox (body .opening)
  | inquires reply => .awaits (.send accountAddress (.inquire reply)) (body (.inquiring reply))
  | reads reply _ => .awaits (.receive reply) (body .reading)
  | stores balance => .awaits (.send accountAddress (.store (balance + (index + 1)))) (body .storing)
  | releases => .awaits (.send lockAddress .release) (body .releasing)
  | ends => .ends (.ok ())
  | leaves => .leaves
  | gone => .gone
where body (phase : Phase) : Body := .depositor ⟨lockAddress, accountAddress, index + 1, true⟩ phase

def mail? : Customer → Option (Address × Option Message)
  | begins grant | acquires grant => some (grant, none)
  | waits grant granted => some (grant, if granted then some .granted else none)
  | inquires reply => some (reply, none)
  | reads reply answer => some (reply, answer.map .balance)
  | opens | stores _ | releases | ends | leaves | gone => none

end Customer

def Keeper.prospect : Keeper → Prospect Body Message
  | begins => .awaits (.start (.mailbox lockAddress)) (.lock .start)
  | receives queue => .awaits (.receive lockAddress) (.lock (.receiving lockAddress queue))
  | grants next rest =>
      .awaits (.send next .granted) (.lock (.granting lockAddress (next :: rest)))
  | ends => .ends (.ok ())
  | leaves => .leaves
  | gone => .gone

def Teller.prospect : Teller → Prospect Body Message
  | begins => .awaits (.start (.mailbox accountAddress)) (.account .start)
  | receives balance =>
      .awaits (.receive accountAddress) (.account (.receiving accountAddress balance))
  | answers reply balance =>
      .awaits (.send reply (.balance balance)) (.account (.answering accountAddress balance))
  | ends => .ends (.ok ())
  | leaves => .leaves
  | gone => .gone

namespace Audit

def prospect (depositors : Nat) : Audit → Prospect Body Message
  | createsLock => .awaits (.create (some "lock") (.lock .start)) (body .creatingLock)
  | createsAccount =>
      .awaits (.create (some "account") (.account .start)) (body (.creatingAccount lockAddress))
  | creates made =>
      .awaits (.create (some s!"depositor-{made.length}") (Customer.prospect.body made.length .start))
        (body (.creatingDepositor lockAddress accountAddress made))
  | joins next rest =>
      .awaits (.join next.owner true) (body (.joining lockAddress accountAddress rest))
  | opens => .calls .mailbox (body (.opening lockAddress accountAddress))
  | inquires reply =>
      .awaits (.send accountAddress (.inquire reply))
        (body (.inquiring lockAddress accountAddress reply))
  | reads reply _ => .awaits (.receive reply) (body (.reading lockAddress accountAddress))
  | closesAccount balance =>
      .awaits (.send accountAddress .close) (body (.closingAccount lockAddress balance))
  | closesLock balance => .awaits (.send lockAddress .close) (body (.closingLock balance))
  | ends => .ends (.ok ())
  | leaves => .leaves
  | gone => .gone
where body (stage : Auditor) : Body := .auditor depositors true stage

def mail? : Audit → Option (Address × Option Message)
  | inquires reply => some (reply, none)
  | reads reply answer => some (reply, answer.map .balance)
  | _ => none

end Audit

def Request.message : Request → Message
  | acquire grant => .acquire grant
  | release => .release

def lockBox (keeper : Option Keeper) (requests : List Request) (closed : Bool) :
    Option (List Message) :=
  keeper.map fun _ => requests.map Request.message ++ if closed then [.close] else []

def accountBox (teller : Option Teller) (stored : Option Nat) (question : Option Address)
    (closed : Bool) : Option (List Message) :=
  teller.map fun _ =>
    stored.toList.map .store ++ question.toList.map .inquire ++ if closed then [.close] else []

section Boxes

variable {keeper : Option Keeper} {teller : Option Teller}

theorem lockBox_eq (created : keeper.isSome = true) (requests : List Request) (closed : Bool) :
    lockBox keeper requests closed =
      some (requests.map Request.message ++ if closed then [.close] else []) := by
  obtain ⟨known, rfl⟩ := Option.isSome_iff_exists.mp created
  rfl

theorem accountBox_eq
    (created : teller.isSome = true) (stored : Option Nat) (question : Option Address)
    (closed : Bool) :
    accountBox teller stored question closed =
      some (stored.toList.map .store ++ question.toList.map .inquire ++
        if closed then [.close] else []) := by
  obtain ⟨known, rfl⟩ := Option.isSome_iff_exists.mp created
  rfl

end Boxes

def mails (audit : Audit) (customers : List Customer) (owner : ActorId) :
    Option (Address × Option Message) :=
  match owner.index with
  | 0 => audit.mail?
  | index + 3 => customers[index]?.bind Customer.mail?
  | 1 | 2 => none

def held : Option (Address × Option Message) → Nat → List Message
  | some (address, letter), slot => if address.slot = slot then letter.toList else []
  | none, _ => []

/-- What everybody does next. -/
structure Cast (depositors : Nat) (audit : Audit) (keeper : Option Keeper) (teller : Option Teller)
    (customers : List Customer) (prospects : List (Prospect Body Message)) : Prop where
  audit : prospects[0]? = some (audit.prospect depositors)
  keeper : prospects[1]? = keeper.map Keeper.prospect
  teller : prospects[2]? = teller.map Teller.prospect
  customers : ∀ index : Nat, prospects[index + 3]? = customers[index]?.map (Customer.prospect index)

structure Stock (lock account : Option (List Message))
    (mails : ActorId → Option (Address × Option Message)) (boxes : List (Box Message)) : Prop where
  lock : boxes[0]? = lock.map fun messages => ⟨lockAddress.owner, messages⟩
  account : boxes[1]? = account.map fun messages => ⟨accountAddress.owner, messages⟩
  others : ∀ (slot : Nat) box, boxes[slot + 2]? = some box →
    box.messages = held (mails box.owner) (slot + 2)
  own : ∀ owner address letter, mails owner = some (address, letter) →
    address.owner = owner ∧ 2 ≤ address.slot ∧ ∃ messages, boxes[address.slot]? =
      some ⟨owner, messages⟩

/-- The scene that the bank is in. -/
structure Depicts (depositors : Nat) (bank : Bank) (scene : Scene Body Message) : Prop where
  cast : Cast depositors bank.audit bank.keeper bank.teller bank.customers scene.prospects
  stock : Stock (lockBox bank.keeper bank.requests bank.lockClosed)
    (accountBox bank.teller bank.stored bank.question bank.accountClosed)
    (mails bank.audit bank.customers) scene.boxes

namespace Cast

variable {depositors index : Nat} {audit : Audit} {keeper : Option Keeper} {teller : Option Teller}
  {customers : List Customer} {prospects : List (Prospect Body Message)} {before : Customer}
  (cast : Cast depositors audit keeper teller customers prospects)

include cast

theorem cases {prospect : Prospect Body Message} (there : prospects[index]? = some prospect) :
    index = 0 ∧ prospect = audit.prospect depositors ∨
      index = 1 ∧ (∃ known, keeper = some known ∧ prospect = known.prospect) ∨
      index = 2 ∧ (∃ known, teller = some known ∧ prospect = known.prospect) ∨
      ∃ position customer, index = position + 3 ∧ customers[position]? = some customer ∧
        prospect = customer.prospect position := by
  match index with
  | 0 => exact .inl ⟨rfl, Option.some.inj (there.symm.trans cast.audit)⟩
  | 1 =>
      rw [cast.keeper] at there
      obtain ⟨known, here, rfl⟩ := Option.map_eq_some_iff.mp there
      exact .inr (.inl ⟨rfl, known, here, rfl⟩)
  | 2 =>
      rw [cast.teller] at there
      obtain ⟨known, here, rfl⟩ := Option.map_eq_some_iff.mp there
      exact .inr (.inr (.inl ⟨rfl, known, here, rfl⟩))
  | position + 3 =>
      rw [cast.customers] at there
      obtain ⟨known, here, rfl⟩ := Option.map_eq_some_iff.mp there
      exact .inr (.inr (.inr ⟨position, known, rfl, here, rfl⟩))

theorem setAudit (now : Audit) :
    Cast depositors now keeper teller customers (prospects.set 0 (now.prospect depositors)) := by
  have inside := (List.getElem?_eq_some_iff.mp cast.audit).1
  refine ⟨List.getElem?_set_self inside, ?_, ?_, ?_⟩
  · rw [List.getElem?_set_ne (by omega), cast.keeper]
  · rw [List.getElem?_set_ne (by omega), cast.teller]
  · intro index
    rw [List.getElem?_set_ne (by omega), cast.customers]

theorem setKeeper (present : keeper.isSome = true) (now : Keeper) :
    Cast depositors audit (some now) teller customers (prospects.set 1 now.prospect) := by
  have inside : 1 < prospects.length := by
    obtain ⟨known, rfl⟩ := Option.isSome_iff_exists.mp present
    exact (List.getElem?_eq_some_iff.mp cast.keeper).1
  refine ⟨?_, List.getElem?_set_self inside, ?_, ?_⟩
  · rw [List.getElem?_set_ne (by omega), cast.audit]
  · rw [List.getElem?_set_ne (by omega), cast.teller]
  · intro index
    rw [List.getElem?_set_ne (by omega), cast.customers]

theorem setTeller (present : teller.isSome = true) (now : Teller) :
    Cast depositors audit keeper (some now) customers (prospects.set 2 now.prospect) := by
  have inside : 2 < prospects.length := by
    obtain ⟨known, rfl⟩ := Option.isSome_iff_exists.mp present
    exact (List.getElem?_eq_some_iff.mp cast.teller).1
  refine ⟨?_, ?_, List.getElem?_set_self inside, ?_⟩
  · rw [List.getElem?_set_ne (by omega), cast.audit]
  · rw [List.getElem?_set_ne (by omega), cast.keeper]
  · intro index
    rw [List.getElem?_set_ne (by omega), cast.customers]

theorem setCustomer (there : customers[index]? = some before) (now : Customer) :
    Cast depositors audit keeper teller (customers.set index now)
      (prospects.set (index + 3) (now.prospect index)) := by
  refine ⟨?_, ?_, ?_, ?_⟩
  · rw [List.getElem?_set_ne (by omega), cast.audit]
  · rw [List.getElem?_set_ne (by omega), cast.keeper]
  · rw [List.getElem?_set_ne (by omega), cast.teller]
  · intro position
    have inside := (List.getElem?_eq_some_iff.mp there).1
    have here : prospects[index + 3]? = some (before.prospect index) := by
      rw [cast.customers, there, Option.map_some]
    by_cases same : index = position
    · subst same
      rw [List.getElem?_set_self (List.getElem?_eq_some_iff.mp here).1,
        List.getElem?_set_self inside, Option.map_some]
    · rw [List.getElem?_set_ne (by omega), List.getElem?_set_ne same, cast.customers]

theorem keepCustomer
    {now : Customer} (there : customers[index]? = some before)
    (same : now.prospect index = before.prospect index) :
    Cast depositors audit keeper teller (customers.set index now) prospects := by
  have kept := cast.setCustomer there now
  have here : prospects[index + 3]? = some (before.prospect index) := by
    rw [cast.customers, there, Option.map_some]
  obtain ⟨inside, placed⟩ := List.getElem?_eq_some_iff.mp here
  rwa [same, ← placed, List.set_getElem_self] at kept

theorem length (present : teller.isSome = true) : prospects.length = customers.length + 3 := by
  have most : prospects.length ≤ customers.length + 3 := by
    rw [← List.getElem?_eq_none_iff, cast.customers, List.getElem?_eq_none (Nat.le_refl _)]
    rfl
  obtain ⟨known, rfl⟩ := Option.isSome_iff_exists.mp present
  have least := (List.getElem?_eq_some_iff.mp cast.teller).1
  cases size : customers.length with
  | zero => omega
  | succ last =>
      have there := List.getElem?_eq_getElem (show last < customers.length by omega)
      have found := cast.customers last
      rw [there] at found
      have inside := (List.getElem?_eq_some_iff.mp found).1
      omega

theorem addCustomer (present : teller.isSome = true) (now : Customer) :
    Cast depositors audit keeper teller (customers ++ [now])
      (prospects ++ [now.prospect customers.length]) := by
  have size := cast.length present
  refine ⟨?_, ?_, ?_, ?_⟩
  · rw [List.getElem?_append_left (by omega), cast.audit]
  · rw [List.getElem?_append_left (by omega), cast.keeper]
  · rw [List.getElem?_append_left (by omega), cast.teller]
  · intro index
    rcases Nat.lt_trichotomy index customers.length with before | rfl | behind
    · rw [List.getElem?_append_left (by omega), List.getElem?_append_left before, cast.customers]
    · rw [← size, List.getElem?_concat_length, List.getElem?_concat_length]
      rfl
    · rw [List.getElem?_eq_none (by simp; omega), List.getElem?_eq_none (by simp; omega)]
      rfl

end Cast

section First

variable {depositors : Nat} {audit : Audit} {keeper : Keeper}
  {prospects : List (Prospect Body Message)}

theorem Cast.length_of_none (cast : Cast depositors audit none none [] prospects) :
    prospects.length = 1 := by
  have most := List.getElem?_eq_none_iff.mp cast.keeper
  have least := (List.getElem?_eq_some_iff.mp cast.audit).1
  omega

theorem Cast.addKeeper (cast : Cast depositors audit none none [] prospects) :
    Cast depositors audit (some .begins) none [] (prospects ++ [Keeper.begins.prospect]) := by
  have size := cast.length_of_none
  refine ⟨?_, ?_, ?_, ?_⟩
  · rw [List.getElem?_append_left (by omega), cast.audit]
  · rw [← size, List.getElem?_concat_length]
    rfl
  · rw [List.getElem?_eq_none (by simp; omega)]
    rfl
  · intro index
    rw [List.getElem?_eq_none (by simp; omega)]
    rfl

theorem Cast.length_of_keeper (cast : Cast depositors audit (some keeper) none [] prospects) :
    prospects.length = 2 := by
  have most := List.getElem?_eq_none_iff.mp cast.teller
  have least := (List.getElem?_eq_some_iff.mp cast.keeper).1
  omega

theorem Cast.addTeller (cast : Cast depositors audit (some keeper) none [] prospects) :
    Cast depositors audit (some keeper) (some .begins) []
      (prospects ++ [Teller.begins.prospect]) := by
  have size := cast.length_of_keeper
  refine ⟨?_, ?_, ?_, ?_⟩
  · rw [List.getElem?_append_left (by omega), cast.audit]
  · rw [List.getElem?_append_left (by omega), cast.keeper]
  · rw [← size, List.getElem?_concat_length]
    rfl
  · intro index
    rw [List.getElem?_eq_none (by simp; omega)]
    rfl

end First

section Mails

variable {audit : Audit} {customers : List Customer} {index : Nat} {before : Customer}

theorem mails_client (audit : Audit) (customers : List Customer) (index : Nat) :
    mails audit customers (client index) = customers[index]?.bind Customer.mail? := rfl

theorem mails_set (there : customers[index]? = some before) (now : Customer) :
    mails audit (customers.set index now) =
      Function.update (mails audit customers) (client index) now.mail? := by
  have inside := (List.getElem?_eq_some_iff.mp there).1
  funext owner
  by_cases self : owner = client index
  · subst self
    rw [Function.update_self, mails_client, List.getElem?_set_self inside, Option.bind_some]
  · rw [Function.update_of_ne self]
    obtain ⟨position⟩ := owner
    match position with
    | 0 | 1 | 2 => rfl
    | position + 3 =>
        have differs : index ≠ position := by
          rintro rfl
          exact self rfl
        change (customers.set index now)[position]?.bind _ = _
        rw [List.getElem?_set_ne differs]
        rfl

theorem mails_append (audit : Audit) (customers : List Customer) (now : Customer) :
    mails audit (customers ++ [now]) =
      Function.update (mails audit customers) (client customers.length) now.mail? := by
  funext owner
  by_cases self : owner = client customers.length
  · subst self
    rw [Function.update_self, mails_client, List.getElem?_concat_length, Option.bind_some]
  · rw [Function.update_of_ne self]
    obtain ⟨position⟩ := owner
    match position with
    | 0 | 1 | 2 => rfl
    | position + 3 =>
        change (customers ++ [now])[position]?.bind _ = customers[position]?.bind _
        rcases Nat.lt_trichotomy position customers.length with earlier | rfl | behind
        · rw [List.getElem?_append_left earlier]
        · exact absurd rfl self
        · rw [List.getElem?_eq_none (by simp; omega), List.getElem?_eq_none (by omega)]

theorem mails_root (audit now : Audit) (customers : List Customer) :
    mails now customers = Function.update (mails audit customers) .root now.mail? := by
  funext owner
  by_cases self : owner = .root
  · subst self
    rw [Function.update_self]
    rfl
  · rw [Function.update_of_ne self]
    obtain ⟨position⟩ := owner
    match position with
    | 0 => exact absurd rfl self
    | 1 | 2 | position + 3 => rfl

end Mails

namespace Stock

variable {lock account : Option (List Message)} {mails : ActorId → Option (Address × Option Message)}
  {boxes : List (Box Message)} {owner : ActorId} {address : Address} {letter : Option Message}
  (stock : Stock lock account mails boxes)

include stock

theorem found (uses : mails owner = some (address, letter)) :
    address.owner = owner ∧ boxes[address.slot]? = some ⟨owner, letter.toList⟩ := by
  obtain ⟨own, late, messages, there⟩ := stock.own owner address letter uses
  refine ⟨own, ?_⟩
  obtain ⟨slot, same⟩ := Nat.exists_eq_add_of_le' late
  rw [same] at there
  have content := stock.others slot _ there
  rw [← same, uses, held, if_pos rfl] at content
  rw [same, there, ← content]

theorem setLock (present : lock.isSome = true) (now : List Message) :
    Stock (some now) account mails (boxes.set 0 ⟨lockAddress.owner, now⟩) := by
  obtain ⟨before, rfl⟩ := Option.isSome_iff_exists.mp present
  have inside := (List.getElem?_eq_some_iff.mp stock.lock).1
  refine ⟨List.getElem?_set_self inside, ?_, ?_, ?_⟩
  · rw [List.getElem?_set_ne (by omega), stock.account]
  · intro slot box there
    rw [List.getElem?_set_ne (by omega)] at there
    exact stock.others slot box there
  · intro owner address letter uses
    obtain ⟨own, late, there⟩ := stock.own owner address letter uses
    exact ⟨own, late, by rwa [List.getElem?_set_ne (by omega)]⟩

theorem eq_of_lock
    {messages known : List Message} (same : lock = some known)
    (found : boxes[lockAddress.slot]? = some ⟨lockAddress.owner, messages⟩) : messages = known := by
  have content := stock.lock
  rw [same, Option.map_some] at content
  cases found.symm.trans content
  rfl

theorem eq_of_account
    {messages known : List Message} (same : account = some known)
    (found : boxes[accountAddress.slot]? = some ⟨accountAddress.owner, messages⟩) :
    messages = known := by
  have content := stock.account
  rw [same, Option.map_some] at content
  cases found.symm.trans content
  rfl

theorem setAccount (present : account.isSome = true) (now : List Message) :
    Stock lock (some now) mails (boxes.set 1 ⟨accountAddress.owner, now⟩) := by
  obtain ⟨before, rfl⟩ := Option.isSome_iff_exists.mp present
  have inside := (List.getElem?_eq_some_iff.mp stock.account).1
  refine ⟨?_, List.getElem?_set_self inside, ?_, ?_⟩
  · rw [List.getElem?_set_ne (by omega), stock.lock]
  · intro slot box there
    rw [List.getElem?_set_ne (by omega)] at there
    exact stock.others slot box there
  · intro owner address letter uses
    obtain ⟨own, late, there⟩ := stock.own owner address letter uses
    exact ⟨own, late, by rwa [List.getElem?_set_ne (by omega)]⟩

theorem setMail
    (uses : mails owner = some (address, letter)) {now : Option (Address × Option Message)}
    (same : ∀ other message, now = some (other, message) → other = address) :
    Stock lock account (Function.update mails owner now)
      (boxes.set address.slot ⟨owner, held now address.slot⟩) := by
  obtain ⟨own, late, messages, there⟩ := stock.own owner address letter uses
  have inside := (List.getElem?_eq_some_iff.mp there).1
  refine ⟨?_, ?_, ?_, ?_⟩
  · rw [List.getElem?_set_ne (by omega), stock.lock]
  · rw [List.getElem?_set_ne (by omega), stock.account]
  · intro slot box found
    by_cases here : address.slot = slot + 2
    · rw [← here, List.getElem?_set_self inside] at found
      cases found
      rw [Function.update_self, here]
    · rw [List.getElem?_set_ne here] at found
      have known := stock.others slot box found
      by_cases self : box.owner = owner
      · rw [self, uses, held, if_neg here] at known
        rw [self, Function.update_self, known]
        cases now with
        | none => rfl
        | some pair => rw [held, same pair.1 pair.2 rfl, if_neg here]
      · rw [Function.update_of_ne self, known]
  · intro known other message used
    by_cases self : known = owner
    · subst self
      rw [Function.update_self] at used
      cases same other message used
      exact ⟨own, late, _, List.getElem?_set_self inside⟩
    · rw [Function.update_of_ne self] at used
      obtain ⟨theirs, behind, content, found⟩ := stock.own known other message used
      refine ⟨theirs, behind, content, ?_⟩
      have elsewhere : address.slot ≠ other.slot := by
        intro here
        rw [here, found] at there
        cases there
        exact self rfl
      rw [List.getElem?_set_ne elsewhere, found]

theorem take
    {message : Message} {rest : List Message} (uses : mails owner = some (address, letter))
    (found : boxes[address.slot]? = some ⟨address.owner, message :: rest⟩) :
    letter = some message ∧ Stock lock account (Function.update mails owner none)
      (boxes.set address.slot ⟨address.owner, rest⟩) := by
  obtain ⟨own, content⟩ := stock.found uses
  rw [found] at content
  cases letter with
  | none => cases content
  | some known =>
      simp only [Option.toList_some, Option.some.injEq, Box.mk.injEq, List.cons.injEq] at content
      obtain ⟨-, rfl, rfl⟩ := content
      refine ⟨rfl, ?_⟩
      rw [own]
      exact stock.setMail uses nofun

theorem two_le (present : account.isSome = true) : 2 ≤ boxes.length := by
  obtain ⟨messages, rfl⟩ := Option.isSome_iff_exists.mp present
  exact (List.getElem?_eq_some_iff.mp stock.account).1

theorem addMail (idle : mails owner = none) (late : 2 ≤ boxes.length) :
    Stock lock account (Function.update mails owner (some (⟨owner, boxes.length⟩, none)))
      (boxes ++ [⟨owner, []⟩]) := by
  refine ⟨?_, ?_, ?_, ?_⟩
  · rw [List.getElem?_append_left (by omega), stock.lock]
  · rw [List.getElem?_append_left (by omega), stock.account]
  · intro slot box found
    rcases Nat.lt_trichotomy (slot + 2) boxes.length with before | here | behind
    · rw [List.getElem?_append_left before] at found
      have known := stock.others slot box found
      by_cases self : box.owner = owner
      · rw [self, idle] at known
        rw [self, Function.update_self, known, held, if_neg (by simp; omega)]
        rfl
      · rw [Function.update_of_ne self, known]
    · rw [here, List.getElem?_concat_length] at found
      cases found
      rw [Function.update_self, held, if_pos here.symm]
      rfl
    · rw [List.getElem?_eq_none (by simp; omega)] at found
      cases found
  · intro known address letter used
    by_cases self : known = owner
    · subst self
      rw [Function.update_self] at used
      cases used
      exact ⟨rfl, late, _, List.getElem?_concat_length⟩
    · rw [Function.update_of_ne self] at used
      obtain ⟨theirs, behind, content, found⟩ := stock.own known address letter used
      have inside := (List.getElem?_eq_some_iff.mp found).1
      exact ⟨theirs, behind, content, by rw [List.getElem?_append_left inside, found]⟩

end Stock

section First

variable {messages : List Message} {mails : ActorId → Option (Address × Option Message)}
  {boxes : List (Box Message)}

theorem Stock.eq_nil (stock : Stock none none mails boxes) : boxes = [] :=
  List.length_eq_zero_iff.mp (Nat.le_zero.mp (List.getElem?_eq_none_iff.mp stock.lock))

theorem Stock.addLock (stock : Stock none none mails boxes) :
    Stock (some []) none mails (boxes ++ [⟨lockAddress.owner, []⟩]) := by
  obtain rfl := stock.eq_nil
  refine ⟨rfl, rfl, nofun, ?_⟩
  intro owner address letter uses
  obtain ⟨-, -, messages, impossible⟩ := stock.own owner address letter uses
  cases impossible

theorem Stock.length_of_lock (stock : Stock (some messages) none mails boxes) :
    boxes.length = 1 := by
  have most := List.getElem?_eq_none_iff.mp stock.account
  have least := (List.getElem?_eq_some_iff.mp stock.lock).1
  omega

theorem Stock.addAccount (stock : Stock (some messages) none mails boxes) :
    Stock (some messages) (some []) mails (boxes ++ [⟨accountAddress.owner, []⟩]) := by
  have size := stock.length_of_lock
  refine ⟨?_, ?_, ?_, ?_⟩
  · rw [List.getElem?_append_left (by omega), stock.lock]
  · rw [← size, List.getElem?_concat_length]
    rfl
  · intro slot box found
    rw [List.getElem?_eq_none (by simp; omega)] at found
    cases found
  · intro owner address letter uses
    obtain ⟨-, late, messages, found⟩ := stock.own owner address letter uses
    rw [List.getElem?_eq_none (by omega)] at found
    cases found

end First

end Interleave.Deposits
