import Interleave.Proofs.Machine.Waiting

namespace Interleave

namespace Machine

variable {σ μ : Type} {machine after : Machine σ μ} {id other : ActorId}
  {actor changed : Actor σ μ} {slot : Nat} {box : Mailbox μ}

theorem not_receives_of_wait? {wait : Wait} {address : Address} (waits : actor.wait? = some wait) :
    ¬ actor.Receives address := by
  intro receives
  rw [Actor.wait?_of_enabled receives.1] at waits
  cases waits

theorem not_joins_of_wait? {wait : Wait} (waits : actor.wait? = some wait) :
    ¬ actor.Joins other := by
  intro joins
  rw [Actor.wait?_of_enabled joins.1] at waits
  cases waits

section One

variable (there : machine.actors.get? id = some actor)
  (actors : ∀ other, after.actors.get? other =
    (machine.actors.get? other).map fun actor => if other = id then changed else actor)

include there actors

theorem get?_of_one : after.actors.get? id = some changed := by
  rw [actors, there, Option.map_some, if_pos rfl]

theorem wait?_of_one : after.wait? other = if other = id then changed.wait? else machine.wait? other := by
  split
  · rename_i same
    rw [same, wait?_of_get? (get?_of_one there actors)]
  · rename_i differs
    rw [wait?, actors, wait?]
    simp only [if_neg differs]
    cases machine.actors.get? other <;> rfl

omit there in
theorem get?_of_others (differs : other ≠ id) :
    after.actors.get? other = machine.actors.get? other := by
  rw [actors]
  simp only [if_neg differs]
  cases machine.actors.get? other <;> rfl

end One

section Alter

variable {alter : Mailbox μ → Mailbox μ}
  (mailboxes : ∀ position, after.mailboxes[position]? =
    (machine.mailboxes[position]?).map fun box => if position = slot then alter box else box)

include mailboxes

theorem getElem?_of_alter (found : machine.mailboxes[slot]? = some box) :
    after.mailboxes[slot]? = some (alter box) := by
  rw [mailboxes, found, Option.map_some, if_pos rfl]

theorem Queued.grow
    {address : Address} {sendStep : Option Nat} (queued : machine.Queued address sendStep)
    (owner : ∀ box, (alter box).owner = box.owner)
    (messages : ∀ box head rest, box.messages = head :: rest →
      ∃ more, (alter box).messages = head :: more) : after.Queued address sendStep := by
  obtain ⟨box, head, rest, known, owned, queued, noted⟩ := queued
  have changed := mailboxes address.slot
  rw [known, Option.map_some] at changed
  split at changed
  · obtain ⟨more, queue⟩ := messages box head rest queued
    exact ⟨_, head, more, changed, (owner box).trans owned, queue, noted⟩
  · exact ⟨box, head, rest, changed, owned, queued, noted⟩

theorem getElem?_of_other {position : Nat} (differs : position ≠ slot) :
    after.mailboxes[position]? = machine.mailboxes[position]? := by
  rw [mailboxes]
  simp only [if_neg differs]
  cases machine.mailboxes[position]? <;> rfl

end Alter

section Park

variable (mail : machine.Mail) (found : machine.mailboxes[slot]? = some box) (owner : box.owner = id)
  (there : machine.actors.get? id = some actor)
  (actors : ∀ other, after.actors.get? other =
    (machine.actors.get? other).map fun actor => if other = id then changed else actor)

include mail found owner there actors

theorem Mail.park
    (empty : box.messages = [])
    (mailboxes : ∀ position, after.mailboxes[position]? = (machine.mailboxes[position]?).map
      fun box => if position = slot then { box with receiverParked := true } else box)
    (idle : actor.wait? = none) (waits : changed.wait? = some (.message slot)) : after.Mail where
  parked := by
    intro position other known
    rw [wait?_of_one there actors]
    by_cases here : position = slot
    · rw [here, getElem?_of_alter mailboxes found] at known
      cases known
      rw [if_pos owner, waits, here]
      simp
    · rw [getElem?_of_other mailboxes here] at known
      rw [mail.parked position other known]
      split
      · rename_i same
        rw [same, wait?_of_get? there, idle, waits]
        simp [Ne.symm here]
      · rfl
  empty := by
    intro waiting position waitsFor
    rw [wait?_of_one there actors] at waitsFor
    split at waitsFor
    · rename_i same
      rw [waits] at waitsFor
      cases waitsFor
      exact ⟨_, getElem?_of_alter mailboxes found, owner.trans same.symm, empty⟩
    · obtain ⟨known, foundThere, owned, nothing⟩ := mail.empty waiting position waitsFor
      by_cases here : position = slot
      · subst here
        exact ⟨_, getElem?_of_alter mailboxes foundThere, owned, nothing⟩
      · exact ⟨known, by rw [getElem?_of_other mailboxes here, foundThere], owned, nothing⟩
  queued := by
    intro receiver known position foundThere receives
    by_cases same : receiver = id
    · rw [same, get?_of_one there actors] at foundThere
      cases foundThere
      exact (not_receives_of_wait? waits receives).elim
    · rw [get?_of_others actors same] at foundThere
      have queued := mail.queued receiver known position foundThere receives
      exact queued.grow mailboxes (fun _ => rfl) fun _ head rest queued => ⟨rest, queued⟩

theorem Mail.take
    {head : Envelope μ} {rest : List (Envelope μ)} (queue : box.messages = head :: rest)
    (mailboxes : ∀ position, after.mailboxes[position]? = (machine.mailboxes[position]?).map
      fun box => if position = slot then { box with messages := box.messages.tail } else box)
    (idle : actor.wait? = none) (stopped : changed.wait? = none)
    (gone : ∀ address, ¬ changed.Receives address) : after.Mail := by
  have waits : ∀ waiting, after.wait? waiting = machine.wait? waiting := by
    intro waiting
    rw [wait?_of_one there actors]
    split
    · rename_i same
      rw [same, wait?_of_get? there, idle, stopped]
    · rfl
  constructor
  case parked =>
    intro position other known
    rw [waits]
    by_cases here : position = slot
    · rw [here, getElem?_of_alter mailboxes found] at known
      cases known
      rw [here]
      exact mail.parked slot box found
    · rw [getElem?_of_other mailboxes here] at known
      exact mail.parked position other known
  case empty =>
    intro waiting position waitsFor
    rw [waits] at waitsFor
    obtain ⟨known, foundThere, owned, nothing⟩ := mail.empty waiting position waitsFor
    have here : position ≠ slot := by
      rintro rfl
      cases found.symm.trans foundThere
      rw [queue] at nothing
      cases nothing
    exact ⟨known, by rw [getElem?_of_other mailboxes here, foundThere], owned, nothing⟩
  case queued =>
    intro receiver known position foundThere receives
    by_cases same : receiver = id
    · rw [same, get?_of_one there actors] at foundThere
      cases foundThere
      exact (gone _ receives).elim
    · rw [get?_of_others actors same] at foundThere
      obtain ⟨other, first, more, known, owned, queued, noted⟩ :=
        mail.queued receiver known position foundThere receives
      have here : position ≠ slot := by
        rintro rfl
        cases found.symm.trans known
        exact same (owned.symm.trans owner)
      exact ⟨other, first, more, by rw [getElem?_of_other mailboxes here]; exact known, owned,
        queued, noted⟩

end Park

section Deliver

variable (mail : machine.Mail) (found : machine.mailboxes[slot]? = some box)

include mail found

theorem Mail.deliver_free
    (free : box.receiverParked = false) (envelope : Envelope μ)
    (actors : ∀ other, after.actors.get? other = machine.actors.get? other)
    (mailboxes : ∀ position, after.mailboxes[position]? = (machine.mailboxes[position]?).map
      fun box => if position = slot then { box with messages := box.messages ++ [envelope] }
        else box) : after.Mail := by
  have waits : ∀ waiting, after.wait? waiting = machine.wait? waiting := by
    intro waiting
    rw [wait?, actors, wait?]
  constructor
  case parked =>
    intro position other known
    rw [waits]
    by_cases here : position = slot
    · rw [here, getElem?_of_alter mailboxes found] at known
      cases known
      rw [here]
      exact mail.parked slot box found
    · rw [getElem?_of_other mailboxes here] at known
      exact mail.parked position other known
  case empty =>
    intro waiting position waitsFor
    rw [waits] at waitsFor
    obtain ⟨known, foundThere, owned, nothing⟩ := mail.empty waiting position waitsFor
    have here : position ≠ slot := by
      rintro rfl
      cases found.symm.trans foundThere
      rw [← owned, ← mail.parked position box found, free] at waitsFor
      cases waitsFor
    exact ⟨known, by rw [getElem?_of_other mailboxes here, foundThere], owned, nothing⟩
  case queued =>
    intro receiver known position foundThere receives
    rw [actors] at foundThere
    have queued := mail.queued receiver known position foundThere receives
    apply queued.grow mailboxes (fun _ => rfl)
    intro box head rest queue
    exact ⟨rest ++ [envelope], by rw [queue, List.cons_append]⟩

theorem Mail.deliver_parked
    (envelope : Envelope μ) (parked : box.receiverParked = true)
    (there : machine.actors.get? box.owner = some actor)
    (actors : ∀ other, after.actors.get? other =
      (machine.actors.get? other).map fun actor => if other = box.owner then changed else actor)
    (mailboxes : ∀ position, after.mailboxes[position]? = (machine.mailboxes[position]?).map
      fun box => if position = slot
        then { box with messages := box.messages ++ [envelope], receiverParked := false } else box)
    (woken : changed.wait? = none)
    (noted : changed.record.sendStep = some envelope.sendStep)
    (only : ∀ position, changed.Receives ⟨box.owner, position⟩ → position = slot) :
    after.Mail := by
  have waited := (mail.parked slot box found).mp parked
  constructor
  case parked =>
    intro position other known
    rw [wait?_of_one there actors]
    by_cases here : position = slot
    · rw [here, getElem?_of_alter mailboxes found] at known
      cases known
      rw [if_pos rfl, woken]
      simp
    · rw [getElem?_of_other mailboxes here] at known
      rw [mail.parked position other known]
      split
      · rename_i same
        rw [same, waited, woken]
        simp [Ne.symm here]
      · rfl
  case empty =>
    intro waiting position waitsFor
    rw [wait?_of_one there actors] at waitsFor
    split at waitsFor
    · rw [woken] at waitsFor
      cases waitsFor
    · rename_i differs
      obtain ⟨known, foundThere, owned, nothing⟩ := mail.empty waiting position waitsFor
      have here : position ≠ slot := by
        rintro rfl
        cases found.symm.trans foundThere
        exact differs owned.symm
      exact ⟨known, by rw [getElem?_of_other mailboxes here, foundThere], owned, nothing⟩
  case queued =>
    intro receiver known position foundThere receives
    by_cases same : receiver = box.owner
    · rw [same, get?_of_one there actors] at foundThere
      cases foundThere
      rw [same] at receives ⊢
      rw [only position receives]
      obtain ⟨other, also, owned, nothing⟩ := mail.empty box.owner slot waited
      cases found.symm.trans also
      exact ⟨_, envelope, [], getElem?_of_alter mailboxes found, rfl, by rw [nothing]; rfl, noted⟩
    · rw [get?_of_others actors same] at foundThere
      have queued := mail.queued receiver known position foundThere receives
      apply queued.grow mailboxes (fun _ => rfl)
      intro box head rest queue
      exact ⟨rest ++ [envelope], by rw [queue, List.cons_append]⟩

end Deliver

section Ends

variable {change : ActorId → Actor σ μ → Actor σ μ} (ends : machine.Ends)
  (actors : ∀ id, after.actors.get? id = (machine.actors.get? id).map (change id))

include ends actors

theorem Ends.join
    (present : machine.actors.get? id = some actor) (idle : actor.wait? = none)
    (living : ∃ target, machine.actors.get? other = some target ∧
      target.record.terminated = false)
    (waiters : ∀ known target, machine.actors.get? known = some target →
      (change known target).record.waiters =
        if known = other then target.record.waiters ++ [id] else target.record.waiters)
    (terminated : ∀ known target, machine.actors.get? known = some target →
      (change known target).record.terminated = target.record.terminated)
    (waits : ∀ known target joined, machine.actors.get? known = some target →
      ((change known target).wait? = some (.stop joined) ↔
        if known = id then joined = other else target.wait? = some (.stop joined)))
    (joined : ∀ known target joined, machine.actors.get? known = some target →
      (change known target).Joins joined → machine.Over joined) : after.Ends := by
  have stops : ∀ waiting joined, after.wait? waiting = some (.stop joined) ↔
      if waiting = id then joined = other else machine.wait? waiting = some (.stop joined) := by
    intro waiting joined
    by_cases same : waiting = id
    · rw [same, wait?_of_get? (get?_change actors present), waits id actor joined present,
        if_pos rfl, if_pos rfl]
    · cases there : machine.actors.get? waiting with
      | none => simp [wait?, actors, there, same]
      | some target =>
          rw [wait?_of_get? (get?_change actors there), waits waiting target joined there,
            wait?_of_get? there]
  constructor
  case waiters =>
    intro known changed found waiting
    obtain ⟨target, there, rfl⟩ := exists_get?_of_change actors found
    have before := ends.waiters known target there waiting
    rw [waiters known target there]
    simp only [stops]
    by_cases same : waiting = id
    · rw [same, wait?_of_get? present, idle] at before
      simp only [reduceCtorEq, if_false] at before
      by_cases here : known = other
      · simp [same, here, List.count_append, before]
      · simp [same, here, before]
    · have never : List.count waiting [id] = 0 := by simp [Ne.symm same]
      by_cases here : known = other
      · simp [same, here, List.count_append, before, never]
      · simp [same, here, before]
  case living =>
    intro waiting known waitsFor
    have target : ∃ target, machine.actors.get? known = some target ∧
        target.record.terminated = false := by
      rw [stops] at waitsFor
      split at waitsFor
      · rw [waitsFor]
        exact living
      · exact ends.living waiting known waitsFor
    obtain ⟨target, there, alive⟩ := target
    exact ⟨_, get?_change actors there, by rw [terminated known target there, alive]⟩
  case joined =>
    intro waiting changed known found joins
    obtain ⟨target, there, rfl⟩ := exists_get?_of_change actors found
    obtain ⟨gone, thereOver, ended⟩ := joined waiting target known there joins
    exact ⟨_, get?_change actors thereOver, by rw [terminated known gone thereOver, ended]⟩

theorem Ends.finish
    (present : ∃ actor, machine.actors.get? id = some actor)
    (waiters : ∀ known target, machine.actors.get? known = some target →
      (change known target).record.waiters = if known = id then [] else target.record.waiters)
    (terminated : ∀ known target, machine.actors.get? known = some target →
      (change known target).record.terminated =
        if known = id then true else target.record.terminated)
    (waits : ∀ known target joined, machine.actors.get? known = some target →
      ((change known target).wait? = some (.stop joined) ↔
        target.wait? = some (.stop joined) ∧ joined ≠ id))
    (joined : ∀ known target joined, machine.actors.get? known = some target →
      (change known target).Joins joined → machine.Over joined ∨ joined = id) : after.Ends := by
  have stops : ∀ waiting joined, after.wait? waiting = some (.stop joined) ↔
      machine.wait? waiting = some (.stop joined) ∧ joined ≠ id := by
    intro waiting joined
    cases there : machine.actors.get? waiting with
    | none => simp [wait?, actors, there]
    | some target =>
        rw [wait?_of_get? (get?_change actors there), waits waiting target joined there,
          wait?_of_get? there]
  constructor
  case waiters =>
    intro known changed found waiting
    obtain ⟨target, there, rfl⟩ := exists_get?_of_change actors found
    rw [waiters known target there]
    simp only [stops]
    by_cases same : known = id
    · simp [same]
    · simp [same, ends.waiters known target there]
  case living =>
    intro waiting known waitsFor
    obtain ⟨waitsFor, differs⟩ := (stops waiting known).mp waitsFor
    obtain ⟨target, there, alive⟩ := ends.living waiting known waitsFor
    exact ⟨_, get?_change actors there, by rw [terminated known target there, if_neg differs, alive]⟩
  case joined =>
    intro waiting changed known found joins
    obtain ⟨target, there, rfl⟩ := exists_get?_of_change actors found
    rcases joined waiting target known there joins with ⟨gone, thereOver, ended⟩ | same
    · refine ⟨_, get?_change actors thereOver, ?_⟩
      rw [terminated known gone thereOver, ended, ite_self]
    · obtain ⟨actor, there⟩ := present
      rw [same]
      exact ⟨_, get?_change actors there, by rw [terminated id actor there, if_pos rfl]⟩

end Ends

section Grow

theorem getElem?_withMailbox (machine : Machine σ μ) (owner : ActorId) (slot : Nat) :
    (machine.withMailbox owner).mailboxes[slot]? =
      if slot = machine.mailboxes.size then some ⟨owner, [], false⟩ else machine.mailboxes[slot]? :=
  Array.getElem?_push

theorem Mail.slot_lt {wait : Nat} (mail : machine.Mail)
    (waits : machine.wait? id = some (.message wait)) : wait < machine.mailboxes.size := by
  obtain ⟨box, found, -, -⟩ := mail.empty id wait waits
  exact (Array.getElem?_eq_some_iff.mp found).1

theorem getElem?_withMailbox_of_some
    (owner : ActorId) (found : machine.mailboxes[slot]? = some box) :
    (machine.withMailbox owner).mailboxes[slot]? = some box := by
  obtain ⟨inside, -⟩ := Array.getElem?_eq_some_iff.mp found
  rw [getElem?_withMailbox, if_neg (Nat.ne_of_lt inside), found]

theorem Mail.withMailbox (mail : machine.Mail) (owner : ActorId) :
    (machine.withMailbox owner).Mail where
  parked := by
    intro slot box found
    rw [getElem?_withMailbox] at found
    split at found
    · rename_i last
      cases found
      constructor
      · intro parked
        cases parked
      · intro waits
        exact absurd (mail.slot_lt waits) (by omega)
    · exact mail.parked slot box found
  empty := by
    intro id slot waits
    obtain ⟨box, found, owned, nothing⟩ := mail.empty id slot waits
    exact ⟨box, getElem?_withMailbox_of_some owner found, owned, nothing⟩
  queued := by
    intro id actor slot there receives
    obtain ⟨box, head, rest, found, queue⟩ := mail.queued id actor slot there receives
    exact ⟨box, head, rest, getElem?_withMailbox_of_some owner found, queue⟩

theorem Coherent.withMailbox
    {current : ActorId} (coherent : machine.Coherent current) (owner : ActorId) :
    (machine.withMailbox owner).Coherent current where
  present := coherent.present
  proper := coherent.proper
  active := coherent.active
  running := coherent.running
  toMail := coherent.toMail.withMailbox owner
  waiters := coherent.waiters
  living := coherent.living
  joined := coherent.joined

section Newcomer

variable {newcomer : Actor σ μ}
  (actors : after.actors = machine.actors.push newcomer)

include actors

omit actors in
theorem ne_nextKey (there : machine.actors.get? id = some actor) : id ≠ machine.actors.nextKey := by
  rintro rfl
  obtain ⟨inside, -⟩ := Array.getElem?_eq_some_iff.mp there
  exact absurd inside (Nat.lt_irrefl _)

theorem get?_settled (there : machine.actors.get? id = some actor) :
    after.actors.get? id = some actor := by
  rw [actors, Roster.get?_push, if_neg (ne_nextKey there), there]

theorem newcomer_or_settled (found : after.actors.get? id = some actor) :
    id = machine.actors.nextKey ∧ actor = newcomer ∨ machine.actors.get? id = some actor := by
  rw [actors, Roster.get?_push] at found
  split at found
  · rename_i new
    exact .inl ⟨new, (Option.some.inj found).symm⟩
  · exact .inr found

theorem wait?_push (idle : newcomer.wait? = none) (id : ActorId) :
    after.wait? id = machine.wait? id := by
  rw [wait?, actors, Roster.get?_push]
  split
  · rename_i new
    have absent : machine.actors.get? id = none := by
      rw [new]
      exact Array.getElem?_eq_none (Nat.le_refl _)
    rw [wait?, absent]
    exact idle
  · rfl

theorem Coherent.push
    {current : ActorId} (coherent : machine.Coherent current)
    (mailboxes : after.mailboxes = machine.mailboxes)
    (idle : newcomer.wait? = none) (proper : newcomer.Proper machine.actors.nextKey)
    (inactive : newcomer.record.active = false) (alone : newcomer.record.waiters = [])
    (resting : newcomer.stage ≠ .running) (receives : ∀ address, ¬ newcomer.Receives address)
    (joins : ∀ other, ¬ newcomer.Joins other) : after.Coherent current := by
  obtain ⟨holder, there⟩ := coherent.present
  have fresh := ne_nextKey there
  have waits := wait?_push actors idle
  constructor
  · constructor
    case present => exact ⟨holder, get?_settled actors there⟩
    case proper =>
      intro id actor found
      rcases newcomer_or_settled actors found with ⟨rfl, rfl⟩ | before
      · exact proper
      · exact coherent.proper id actor before
    case active =>
      intro id actor found
      rcases newcomer_or_settled actors found with ⟨rfl, rfl⟩ | before
      · simp [inactive, fresh.symm]
      · exact coherent.active id actor before
    case running =>
      intro id actor found running
      rcases newcomer_or_settled actors found with ⟨rfl, rfl⟩ | before
      · exact absurd running resting
      · exact coherent.running id actor before running
  · constructor
    case parked =>
      intro slot box found
      rw [mailboxes] at found
      rw [waits]
      exact coherent.parked slot box found
    case empty =>
      intro id slot waiting
      rw [mailboxes]
      rw [waits] at waiting
      exact coherent.empty id slot waiting
    case queued =>
      intro id actor slot found receiving
      rw [Queued, mailboxes]
      rcases newcomer_or_settled actors found with ⟨rfl, rfl⟩ | before
      · exact absurd receiving (receives _)
      · exact coherent.queued id actor slot before receiving
  · constructor
    case waiters =>
      intro other target found id
      rw [waits]
      rcases newcomer_or_settled actors found with ⟨rfl, rfl⟩ | before
      · have unknown : machine.wait? id ≠ some (.stop machine.actors.nextKey) := by
          intro waiting
          obtain ⟨target, before, -⟩ := coherent.living id _ waiting
          exact ne_nextKey before rfl
        simp [alone, unknown]
      · exact coherent.waiters other target before id
    case living =>
      intro id other waiting
      rw [waits] at waiting
      obtain ⟨target, before, living⟩ := coherent.living id other waiting
      exact ⟨target, get?_settled actors before, living⟩
    case joined =>
      intro id actor other found joining
      rcases newcomer_or_settled actors found with ⟨rfl, rfl⟩ | before
      · exact absurd joining (joins other)
      · obtain ⟨target, thereOver, ended⟩ := coherent.joined id actor other before joining
        exact ⟨target, get?_settled actors thereOver, ended⟩

end Newcomer

theorem Coherent.withActor
    {current : ActorId} (coherent : machine.Coherent current) (name : Option String) (body : σ) :
    (machine.withActor name body).Coherent current := by
  have actors : (machine.withActor name body).actors =
      (machine.withMailbox machine.actors.nextKey).actors.push
        ⟨.start machine.actors.nextKey name false,
          .waiting (.start (.mailbox ⟨machine.actors.nextKey, machine.mailboxes.size⟩)) body⟩ := rfl
  apply Coherent.push actors (coherent.withMailbox machine.actors.nextKey) rfl rfl _ rfl rfl
  · intro impossible
    cases impossible
  · intro address receives
    obtain ⟨-, body, same⟩ := receives
    cases same
  · intro other joins
    obtain ⟨-, strict, body, same⟩ := joins
    cases same
  · exact .free ⟨rfl, rfl, rfl, rfl⟩ rfl rfl

end Grow

end Machine

end Interleave
