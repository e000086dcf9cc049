import Interleave.Proofs.Run.Answers

namespace Interleave.Policy.Priority

open Attempt

/-- The first of the two actors is before the second one. -/
def Ahead (order : List ActorId) (first second : ActorId) : Prop := [first, second].Sublist order

instance (order : List ActorId) (first second : ActorId) : Decidable (Ahead order first second) :=
  inferInstanceAs (Decidable ([first, second].Sublist order))

def present (actors : List Snapshot) (bad : Option ActorId) : Option ActorId :=
  bad.filter fun bad => bad.index < actors.length

def moved (actors : List Snapshot) (current : ActorId) (bad : Option ActorId) : ActorId :=
  (present actors bad).getD current

/-- The moved actor comes first if it is the bad one, and otherwise last. -/
def Shifts (actors : List Snapshot) (current : ActorId) (bad : Option ActorId)
    (order : List ActorId) : Prop :=
  match present actors bad with
  | some bad => order.head? = some bad
  | none => order.getLast? = some current

/-- No actor of this kind is before the one. -/
structure Leads (order : List ActorId) (actors : List Snapshot) (among : Snapshot → Bool)
    (actor : Snapshot) : Prop where
  listed : actor ∈ actors
  among_self : among actor = true
  ahead : ∀ other ∈ actors, among other = true → other.id ≠ actor.id → Ahead order actor.id other.id

/-- The first enabled actor that does not send runs, or else the first enabled one. -/
def Picks (order : List ActorId) (actors : List Snapshot) (next : ActorId) : Prop :=
  ∃ actor, actor.id = next ∧
    (Leads order actors (fun other => other.enabled && other.kind ≠ .send) actor ∨
      (∀ other ∈ actors, other.enabled = true → other.kind = .send) ∧
        Leads order actors Snapshot.enabled actor)

structure Call where
  actors : List Snapshot
  current : ActorId
  before : Priority
  decision : Decision
  after : Priority

namespace Call

/-- The current actor sends, unless the step limit cuts the call short. -/
def counts (call : Call) : Bool :=
  call.decision ≠ .hitStepLimit && isSending call.actors call.current

/-- A change point takes effect. -/
def changes (call : Call) : Bool := call.after.changePoints ≠ call.before.changePoints

theorem changes_iff {call : Call} :
    call.changes = true ↔ call.after.changePoints ≠ call.before.changePoints :=
  decide_eq_true_iff

/-- What a call does to the order, and what it reads off it. -/
structure Keeps (settings : Settings) (call : Call) : Prop where
  permutes : call.after.order.Perm (call.actors.map Snapshot.id)
  ahead_iff : ∀ first ∈ call.before.order, ∀ second ∈ call.before.order,
    (call.changes = true → first ≠ moved call.actors call.current settings.badActor ∧
      second ≠ moved call.actors call.current settings.badActor) →
    (Ahead call.after.order first second ↔ Ahead call.before.order first second)
  shifts : call.changes = true →
    Shifts call.actors call.current settings.badActor call.after.order
  picks : ∀ next, call.decision = .run next → Picks call.after.order call.actors next

end Call

/-- How many sends an execution has counted. -/
def sendCount (calls : List Call) : Nat := calls.countP Call.counts

/-- Actors are numbered by their positions, the current one is one of them, and in an execution none
of them goes away. -/
structure Admits (calls : List Call) (actors : List Snapshot) (current : ActorId) : Prop where
  numbered : Numbered actors
  current_lt : current.index < actors.length
  kept : ∀ call ∈ calls, call.actors.length ≤ actors.length

/-- The calls of the executions that are over, those of the present one, and the policy now. -/
inductive Session (settings : Settings) : List (List Call) → List Call → Priority → Prop
  | start : Session settings [] [] (ofSettings settings)
  | choose {past : List (List Call)} {calls : List Call} {log written : Log} (call : Call)
      (session : Session settings past calls call.before)
      (admitted : Admits calls call.actors call.current)
      (chosen : (Scheduler.choose call.actors call.current).Returns (call.before, log)
        call.decision (call.after, written)) :
      Session settings past (calls ++ [call]) call.after
  | advance {past : List (List Call)} {calls : List Call} {policy next : Priority} {more : Bool}
      {log written : Log}
      (session : Session settings past calls policy)
      (advanced : Scheduler.advance.Returns (policy, log) more (next, written)) :
      Session settings (past ++ [calls]) [] next

/-- Each execution has kept the order, and has taken no more change points than it may; those that
are left are within the sends of an earlier execution; and what comes next returns. -/
structure Prioritizes (settings : Settings) (past : List (List Call)) (calls : List Call)
    (policy : Priority) : Prop where
  keeps : ∀ execution ∈ past ++ [calls], ∀ call ∈ execution, call.Keeps settings
  changes_le : ∀ execution ∈ past ++ [calls],
    execution.countP Call.changes ≤ settings.changePoints
  points : ∀ point ∈ policy.changePoints,
    1 ≤ point ∧ ∃ execution ∈ past, point ≤ sendCount execution
  chooses : ∀ actors current, Admits calls actors current → ∀ log, ∃ decision next written,
    (Scheduler.choose actors current).Returns (policy, log) decision (next, written)
  advances : ∀ log, ∃ next, Scheduler.advance.Returns (policy, log) true (next, log)

section Ahead

variable {order longer : List ActorId} {first second id : ActorId}

theorem ahead_filter_iff
    {among : ActorId → Bool} (first_among : among first = true) (second_among : among second = true) :
    Ahead (order.filter among) first second ↔ Ahead order first second := by
  constructor
  · intro ahead
    exact ahead.trans List.filter_sublist
  · intro ahead
    have both : [first, second].filter among = [first, second] := by simp [first_among, second_among]
    have filtered := List.Sublist.filter among ahead
    rwa [both] at filtered

/-- Newcomers do not come between two actors. -/
theorem ahead_iff_of_sublist
    (kept : order.Sublist longer) (nodup : longer.Nodup)
    (first_mem : first ∈ order) (second_mem : second ∈ order) :
    Ahead longer first second ↔ Ahead order first second := by
  have known : longer.filter (· ∈ order) = order := by
    have below : order.Sublist (longer.filter (· ∈ order)) := by
      have same : order.filter (· ∈ order) = order := by simp
      have filtered := List.Sublist.filter (· ∈ order) kept
      rwa [same] at filtered
    have above : longer.filter (· ∈ order) ⊆ order := by
      intro id member
      simpa using (List.mem_filter.mp member).2
    exact (below.eq_of_length_le (List.subperm_of_subset (nodup.filter _) above).length_le).symm
  have filtered : Ahead (longer.filter (· ∈ order)) first second ↔ Ahead longer first second :=
    ahead_filter_iff (by simpa using first_mem) (by simpa using second_mem)
  rw [← filtered, known]

theorem filter_toFront (nodup : order.Nodup) (id : ActorId) :
    (toFront order id).filter (· != id) = order.filter (· != id) := by
  unfold toFront
  split
  · simp [nodup.erase_eq_filter]
  · rfl

theorem filter_toBack (nodup : order.Nodup) (id : ActorId) :
    (toBack order id).filter (· != id) = order.filter (· != id) := by
  unfold toBack
  split
  · simp [nodup.erase_eq_filter]
  · rfl

end Ahead

section Shifted

variable {order : List ActorId} {actors : List Snapshot} {current : ActorId} {bad : Option ActorId}

def shifted (actors : List Snapshot) (current : ActorId) (bad : Option ActorId)
    (order : List ActorId) : List ActorId :=
  match present actors bad with
  | some bad => toFront order bad
  | none => toBack order current

theorem perm_shifted (actors : List Snapshot) (current : ActorId) (bad : Option ActorId)
    (order : List ActorId) : (shifted actors current bad order).Perm order := by
  unfold shifted
  split
  · exact perm_toFront order _
  · exact perm_toBack order current

theorem ahead_shifted_iff {first second : ActorId}
    (nodup : order.Nodup) (first_ne : first ≠ moved actors current bad)
    (second_ne : second ≠ moved actors current bad) :
    Ahead (shifted actors current bad order) first second ↔ Ahead order first second := by
  have rest : (shifted actors current bad order).filter (· != moved actors current bad) =
      order.filter (· != moved actors current bad) := by
    unfold shifted moved
    cases present actors bad with
    | some bad => exact filter_toFront nodup bad
    | none => exact filter_toBack nodup current
  have filtered (order : List ActorId) :
      Ahead (order.filter (· != moved actors current bad)) first second ↔
        Ahead order first second :=
    ahead_filter_iff (by simpa using first_ne) (by simpa using second_ne)
  rw [← filtered, rest, filtered]

theorem shifts_shifted
    (members : ∀ id, id ∈ order ↔ id.index < actors.length)
    (current_lt : current.index < actors.length) :
    Shifts actors current bad (shifted actors current bad order) := by
  unfold Shifts shifted
  cases found : present actors bad with
  | some bad =>
      have member : bad ∈ order := (members bad).mpr (by simpa using (Option.filter_eq_some_iff.mp found).2)
      simp [toFront, member]
  | none =>
      have member : current ∈ order := (members current).mpr current_lt
      simp [toBack, member]

end Shifted

section Choose

variable {actors : List Snapshot} {current : ActorId} {policy next : Priority} {count : Nat}

theorem sublist_place (policy : Priority) (id : ActorId) :
    policy.order.Sublist (policy.place id).order :=
  List.sublist_insertIdx policy.order _ id

theorem sublist_welcome (actors : List Snapshot) (policy : Priority) :
    policy.order.Sublist (policy.welcome actors).order := by
  unfold welcome
  generalize actors.drop policy.order.length = newcomers
  induction newcomers generalizing policy with
  | nil => exact .refl _
  | cons actor rest induction =>
      exact (sublist_place policy actor.id).trans (induction (policy.place actor.id))

theorem exists_place_eq (policy : Priority) (id : ActorId) :
    ∃ order source, policy.place id = { policy with order := order, source := source } :=
  ⟨_, _, rfl⟩

theorem exists_welcome_eq (actors : List Snapshot) (policy : Priority) :
    ∃ order source, policy.welcome actors = { policy with order := order, source := source } := by
  unfold welcome
  generalize actors.drop policy.order.length = newcomers
  induction newcomers generalizing policy with
  | nil => exact ⟨_, _, rfl⟩
  | cons actor rest induction =>
      obtain ⟨order, source, rest_eq⟩ := induction (policy.place actor.id)
      obtain ⟨_, _, place_eq⟩ := exists_place_eq policy actor.id
      refine ⟨order, source, ?_⟩
      rw [List.foldl_cons, rest_eq, place_eq]

def ready (actors : List Snapshot) (policy : Priority) : Priority :=
  { policy.welcome actors with steps := (policy.welcome actors).steps + 1 }

def counted (actors : List Snapshot) (current : ActorId) (policy : Priority) : Priority :=
  ((policy.ready actors).countSend actors current).2

theorem choose_cases {log written : Log} {decision : Decision}
    (chosen : (Priority.choose actors current).Returns (policy, log) decision (next, written)) :
    decision = .hitStepLimit ∧ next = policy.ready actors ∨
      next = policy.counted actors current ∧ next.decide actors = .ok decision := by
  unfold Priority.choose at chosen
  rw [Returns, outcome_modify_bind, outcome_modify_bind, outcome_get_bind] at chosen
  generalize met : { policy.welcome actors with steps := (policy.welcome actors).steps + 1 } =
    ready at chosen
  rw [counted, Priority.ready, met]
  by_cases limited : (ready.stepLimit.any fun limit => limit < ready.steps) = true
  · rw [if_pos limited] at chosen
    obtain ⟨rfl, same⟩ := returns_pure_iff.mp chosen
    exact .inl ⟨rfl, (congrArg Prod.fst same).symm⟩
  · rw [if_neg limited] at chosen
    cases sent : ready.countSend actors current with
    | mk event changed =>
        rw [sent] at chosen
        obtain ⟨_, _, stored, told⟩ := returns_bind_iff.mp chosen
        obtain rfl := returns_set_iff.mp stored
        obtain ⟨_, between, logged, decided⟩ := returns_bind_iff.mp told
        obtain ⟨decided, same⟩ := returns_lift_iff.mp decided
        have kept : between.1 = changed := by
          cases event with
          | none => exact (congrArg Prod.fst (returns_pure_iff.mp logged).2).symm
          | some event => exact (congrArg Prod.fst (returns_log_iff.mp logged)).symm
        have next_eq : next = changed := (congrArg Prod.fst same).symm.trans kept
        exact .inr ⟨next_eq, next_eq ▸ decided⟩

theorem countSend_cases (actors : List Snapshot) (current : ActorId) (policy : Priority) :
    isSending actors current = false ∧ (policy.countSend actors current).2 = policy ∨
      isSending actors current = true ∧
        (policy.sends + 1 ∉ policy.changePoints ∧
            (policy.countSend actors current).2 = { policy with sends := policy.sends + 1 } ∨
          policy.sends + 1 ∈ policy.changePoints ∧
            (policy.countSend actors current).2 =
              (change actors current { policy with sends := policy.sends + 1 }).2) := by
  cases sending : isSending actors current with
  | false => exact .inl ⟨rfl, by simp [countSend, sending]⟩
  | true =>
      refine .inr ⟨rfl, ?_⟩
      by_cases due : policy.sends + 1 ∈ policy.changePoints
      · exact .inr ⟨due, by simp [countSend, sending, due]⟩
      · exact .inl ⟨due, by simp [countSend, sending, due]⟩

/-- A change point moves one actor, is used up, and changes nothing else. -/
theorem change_eq (actors : List Snapshot) (current : ActorId) (policy : Priority) :
    (policy.change actors current).2 =
      { policy with
        changePoints := policy.changePoints.erase policy.sends
        order := shifted actors current policy.badActor policy.order } := by
  unfold change shifted present
  cases policy.badActor with
  | none => rfl
  | some bad =>
      by_cases exists_bad : bad.index < actors.length
      · simp [Option.filter, exists_bad]
      · simp [Option.filter, exists_bad]

theorem Orders.nodup (orders : policy.Orders count) : policy.order.Nodup := by
  refine orders.nodup_iff.mpr (List.nodup_range.map ?_)
  intro first second same
  cases same
  rfl

theorem erase_ne_self {points : List Nat} {point : Nat} (member : point ∈ points) :
    points.erase point ≠ points := by
  intro same
  have shorter := List.length_erase_of_mem member
  have some_point := List.length_pos_of_mem member
  rw [same] at shorter
  omega

def pick? (listed : List Snapshot) : Option Snapshot :=
  (listed.filter Snapshot.enabled).find? (fun actor => actor.kind ≠ .send)
    <|> (listed.filter Snapshot.enabled).head?

theorem exists_of_decide {decision : Decision} (decided : policy.decide actors = .ok decision) :
    ∃ listed, policy.order.mapM (lookUp actors) = .ok listed ∧
      (∃ actor, pick? listed = some actor ∧ decision = .run actor.id) ∨
        pick? listed = none ∧ decision = .deadlock := by
  obtain ⟨listed, found, decided⟩ := Checked.bind_eq_ok_iff.mp decided
  refine ⟨listed, ?_⟩
  cases picked : pick? listed with
  | some actor =>
      simp only [pick?] at picked
      simp only [picked] at decided
      cases decided
      exact .inl ⟨found, actor, rfl, rfl⟩
  | none =>
      simp only [pick?] at picked
      simp only [picked] at decided
      cases decided
      exact .inr ⟨rfl, rfl⟩

theorem decide_ne_hitStepLimit (actors : List Snapshot) (policy : Priority) :
    policy.decide actors ≠ .ok .hitStepLimit := by
  intro decided
  obtain ⟨_, ⟨-, _, -, impossible⟩ | ⟨-, impossible⟩⟩ := exists_of_decide decided
  · cases impossible
  · cases impossible

theorem map_id_of_listed
    (numbered : Numbered actors) {order : List ActorId} {listed : List Snapshot}
    (found : order.mapM (lookUp actors) = .ok listed) : listed.map Snapshot.id = order := by
  induction order generalizing listed with
  | nil =>
      cases found
      rfl
  | cons id rest induction =>
      rw [List.mapM_cons] at found
      obtain ⟨first, looked, found⟩ := Checked.bind_eq_ok_iff.mp found
      obtain ⟨others, follow, same⟩ := Checked.bind_eq_ok_iff.mp found
      cases same
      have first_id : first.id = id := by
        unfold lookUp at looked
        split at looked
        · rename_i there
          cases looked
          exact numbered id.index first there
        · cases looked
      rw [List.map_cons, first_id, induction follow]

/-- Who is found first in a list has its name ahead of all others that might be found. -/
theorem leads_of_find?
    {listed : List Snapshot} {among : Snapshot → Bool} {actor : Snapshot}
    (members : ∀ other, other ∈ listed ↔ other ∈ actors)
    (found : listed.find? among = some actor) :
    Leads (listed.map Snapshot.id) actors among actor where
  listed := (members actor).mp (List.mem_of_find?_eq_some found)
  among_self := List.find?_some found
  ahead := by
    intro other listed_other suits differs
    obtain ⟨-, before, after, rfl, unsuited⟩ := List.find?_eq_some_iff_append.mp found
    have later : other ∈ after := by
      rcases List.mem_append.mp ((members other).mpr listed_other) with early | late
      · have unsuited := unsuited other early
        rw [suits] at unsuited
        cases unsuited
      · exact (List.mem_cons.mp late).resolve_left fun same => differs (congrArg Snapshot.id same)
    have pair : [actor, other].Sublist (before ++ actor :: after) :=
      ((List.singleton_sublist.mpr later).cons_cons actor).trans (List.sublist_append_right _ _)
    exact pair.map Snapshot.id

theorem Orders.picks
    (orders : policy.Orders actors.length) (numbered : Numbered actors)
    (decided : policy.decide actors = .ok (.run current)) :
    Picks policy.order actors current := by
  obtain ⟨listed, found, members⟩ := orders.exists_listed
  obtain ⟨_, ⟨same, actor, picked, runs⟩ | ⟨-, impossible⟩⟩ := exists_of_decide decided
  · rw [found] at same
    cases same
    cases runs
    refine ⟨actor, rfl, ?_⟩
    rw [← map_id_of_listed numbered found]
    simp only [pick?, Option.orElse_eq_orElse, Option.orElse_eq_or, Option.or_eq_some_iff] at picked
    rcases picked with first | ⟨sending, first⟩
    · rw [List.find?_filter] at first
      exact .inl (leads_of_find? members (by simpa using first))
    · refine .inr ⟨?_, ?_⟩
      · intro other listed_other enabled
        have member := List.mem_filter.mpr ⟨(members other).mpr listed_other, enabled⟩
        simpa using List.find?_eq_none.mp sending other member
      · rw [List.head?_filter] at first
        exact leads_of_find? members first
  · cases impossible

end Choose

/-- What a call leaves of the policy: either all points and the order with the newcomers in it, or a
point less and an actor moved. -/
structure Played (call : Call) : Prop where
  count : call.after.count = call.before.count
  badActor : call.after.badActor = call.before.badActor
  maxSends : call.after.maxSends = call.before.maxSends
  sends : call.after.sends = call.before.sends + if call.counts = true then 1 else 0
  order : call.after.changePoints = call.before.changePoints ∧
      call.after.order = (call.before.welcome call.actors).order ∨
    call.after.sends ∈ call.before.changePoints ∧
      call.after.changePoints = call.before.changePoints.erase call.after.sends ∧
      call.after.order = shifted call.actors call.current call.before.badActor
        (call.before.welcome call.actors).order
  decided : call.decision = .hitStepLimit ∨
    call.after.decide call.actors = .ok call.decision

theorem played_of_returns
    {call : Call} {log written : Log}
    (chosen : (Priority.choose call.actors call.current).Returns (call.before, log)
      call.decision (call.after, written)) :
    Played call := by
  obtain ⟨order, source, welcome_eq⟩ := exists_welcome_eq call.actors call.before
  rcases choose_cases chosen with ⟨cut, after_eq⟩ | ⟨after_eq, decided⟩
  · have uncounted : call.counts = false := by simp [Call.counts, cut]
    rw [ready, welcome_eq] at after_eq
    exact {
      count := by rw [after_eq]
      badActor := by rw [after_eq]
      maxSends := by rw [after_eq]
      sends := by rw [after_eq, uncounted]; rfl
      order := .inl (by rw [after_eq, welcome_eq]; exact ⟨rfl, rfl⟩)
      decided := .inl cut }
  · have uncut : call.decision ≠ .hitStepLimit := by
      intro cut
      exact decide_ne_hitStepLimit call.actors call.after (cut ▸ decided)
    have counts_eq : call.counts = isSending call.actors call.current := by
      simp [Call.counts, uncut]
    rw [counted, ready, welcome_eq] at after_eq
    rcases countSend_cases call.actors call.current _ with
      ⟨idle, same⟩ | ⟨sending, ⟨-, same⟩ | ⟨due, same⟩⟩
    · rw [same] at after_eq
      exact {
        count := by rw [after_eq]
        badActor := by rw [after_eq]
        maxSends := by rw [after_eq]
        sends := by rw [after_eq, counts_eq, idle]; rfl
        order := .inl (by rw [after_eq, welcome_eq]; exact ⟨rfl, rfl⟩)
        decided := .inr decided }
    · rw [same] at after_eq
      exact {
        count := by rw [after_eq]
        badActor := by rw [after_eq]
        maxSends := by rw [after_eq]
        sends := by rw [after_eq, counts_eq, sending]; rfl
        order := .inl (by rw [after_eq, welcome_eq]; exact ⟨rfl, rfl⟩)
        decided := .inr decided }
    · rw [same, change_eq] at after_eq
      exact {
        count := by rw [after_eq]
        badActor := by rw [after_eq]
        maxSends := by rw [after_eq]
        sends := by rw [after_eq, counts_eq, sending]; rfl
        order := .inr (by rw [after_eq, welcome_eq]; exact ⟨due, rfl, rfl⟩)
        decided := .inr decided }

theorem Call.changes_of_erase
    {call : Call} (due : call.after.sends ∈ call.before.changePoints)
    (points_eq : call.after.changePoints = call.before.changePoints.erase call.after.sends) :
    call.changes = true := by
  rw [Call.changes_iff, points_eq]
  exact erase_ne_self due

structure Standing (settings : Settings) (past : List (List Call)) (calls : List Call)
    (policy : Priority) : Prop where
  count : policy.count = settings.changePoints
  badActor : policy.badActor = settings.badActor
  sends : policy.sends = sendCount calls
  most : policy.maxSends = 0 ∨ ∃ execution ∈ past, policy.maxSends = sendCount execution
  points : ∀ point ∈ policy.changePoints,
    1 ≤ point ∧ ∃ execution ∈ past, point ≤ sendCount execution
  spare : calls.countP Call.changes + policy.changePoints.length ≤ settings.changePoints
  orders : ∃ count, policy.Orders count ∧
    ∀ actors current, Admits calls actors current → count ≤ actors.length

section Standing

variable {settings : Settings} {past : List (List Call)} {calls : List Call}

theorem standing_start (settings : Settings) : Standing settings [] [] (ofSettings settings) where
  count := rfl
  badActor := rfl
  sends := rfl
  most := .inl rfl
  points := by
    intro point member
    cases member
  spare := Nat.zero_le _
  orders := ⟨0, .refl _, fun _ _ _ => Nat.zero_le _⟩

theorem Standing.orders_welcome
    {policy : Priority} (standing : Standing settings past calls policy)
    {actors : List Snapshot} {current : ActorId} (admitted : Admits calls actors current) :
    (policy.welcome actors).Orders actors.length := by
  obtain ⟨_, orders, few⟩ := standing.orders
  exact orders.welcome admitted.numbered (few _ _ admitted)

section Call

variable {call : Call} (standing : Standing settings past calls call.before)
  (admitted : Admits calls call.actors call.current) (played : Played call)

include standing admitted played

theorem Standing.orders_after : call.after.Orders call.actors.length := by
  have welcomed := standing.orders_welcome admitted
  unfold Orders
  rcases played.order with ⟨-, order_eq⟩ | ⟨-, -, order_eq⟩
  · rw [order_eq]
    exact welcomed
  · rw [order_eq]
    exact (perm_shifted _ _ _ _).trans welcomed

theorem Standing.keeps : call.Keeps settings := by
  have welcomed := standing.orders_welcome admitted
  have ordered := standing.orders_after admitted played
  have stays {first second : ActorId} (first_mem : first ∈ call.before.order)
      (second_mem : second ∈ call.before.order) :
      Ahead (call.before.welcome call.actors).order first second ↔
        Ahead call.before.order first second :=
    ahead_iff_of_sublist (sublist_welcome call.actors call.before) welcomed.nodup first_mem second_mem
  constructor
  case permutes =>
    rw [map_id_of_numbered admitted.numbered]
    exact ordered
  case ahead_iff =>
    intro first first_mem second second_mem others
    rw [← stays first_mem second_mem]
    rcases played.order with ⟨-, order_eq⟩ | ⟨due, points_eq, order_eq⟩
    · rw [order_eq]
    · obtain ⟨first_ne, second_ne⟩ := others (Call.changes_of_erase due points_eq)
      rw [order_eq, standing.badActor]
      exact ahead_shifted_iff welcomed.nodup first_ne second_ne
  case shifts =>
    intro changes
    rcases played.order with ⟨points_eq, -⟩ | ⟨-, -, order_eq⟩
    · exact absurd points_eq (Call.changes_iff.mp changes)
    · rw [order_eq, standing.badActor]
      exact shifts_shifted (fun _ => welcomed.mem_order_iff) admitted.current_lt
  case picks =>
    intro next runs
    rcases played.decided with cut | decided
    · rw [cut] at runs
      cases runs
    · rw [runs] at decided
      exact ordered.picks admitted.numbered decided

theorem Standing.choose : Standing settings past (calls ++ [call]) call.after where
  count := played.count.trans standing.count
  badActor := played.badActor.trans standing.badActor
  sends := by
    rw [played.sends, standing.sends, sendCount, sendCount, List.countP_append,
      List.countP_singleton]
  most := played.maxSends ▸ standing.most
  points := by
    intro point member
    apply standing.points
    rcases played.order with ⟨points_eq, -⟩ | ⟨-, points_eq, -⟩
    · rwa [points_eq] at member
    · rw [points_eq] at member
      exact List.mem_of_mem_erase member
  spare := by
    have spare := standing.spare
    rw [List.countP_append, List.countP_singleton]
    rcases played.order with ⟨points_eq, -⟩ | ⟨due, points_eq, -⟩
    · simpa [Call.changes, points_eq] using spare
    · rw [if_pos (Call.changes_of_erase due points_eq), points_eq]
      have shorter := List.length_erase_of_mem due
      have some_point := List.length_pos_of_mem due
      omega
  orders := by
    refine ⟨_, standing.orders_after admitted played, ?_⟩
    intro actors current later
    exact later.kept call (by simp)

end Call

theorem Standing.advance
    {policy next : Priority} (standing : Standing settings past calls policy) {more : Bool}
    {log written : Log} (advanced : Scheduler.advance.Returns (policy, log) more (next, written)) :
    Standing settings (past ++ [calls]) [] next := by
  have next_eq : policy.advance.2 = next := congrArg (fun result => result.1.2) advanced
  -- The most sends are those of an earlier execution, or of the one that is over now.
  have most : max policy.maxSends policy.sends = 0 ∨
      ∃ execution ∈ past ++ [calls], max policy.maxSends policy.sends = sendCount execution := by
    rcases Nat.le_total policy.maxSends policy.sends with fewer | more
    · rw [Nat.max_eq_right fewer, standing.sends]
      exact .inr ⟨calls, by simp, rfl⟩
    · rw [Nat.max_eq_left more]
      refine standing.most.imp_right ?_
      rintro ⟨execution, member, same⟩
      exact ⟨execution, List.mem_append_left _ member, same⟩
  subst next_eq
  refine { standing with
    sends := rfl
    most := most
    points := ?_
    spare := ?_
    orders := ⟨0, .refl _, fun _ _ _ => Nat.zero_le _⟩ }
  · intro point member
    simp only [Priority.advance] at member
    split at member
    · cases member
    · rename_i some_sends
      obtain ⟨positive, bounded⟩ := mem_drawPoints (Nat.pos_of_ne_zero some_sends) member
      obtain ⟨execution, listed, same⟩ := most.resolve_left some_sends
      exact ⟨positive, execution, listed, same ▸ bounded⟩
  · rw [List.countP_nil, Nat.zero_add]
    simp only [Priority.advance]
    split
    · exact Nat.zero_le _
    · exact Nat.le_of_eq ((length_drawPoints _ _ _).trans standing.count)

theorem Session.standing
    {policy : Priority} (session : Session settings past calls policy) :
    Standing settings past calls policy := by
  induction session with
  | start => exact standing_start settings
  | choose call session admitted chosen induction =>
      exact induction.choose admitted (played_of_returns chosen)
  | advance session advanced induction => exact induction.advance advanced

def answer (actors : List Snapshot) (current : ActorId) (log : Log) (policy : Priority) :
    Except Fault Decision × Priority :=
  ((Scheduler.choose actors current).outcome (policy, log)).1

theorem Session.ask
    {policy : Priority} (session : Session settings past calls policy)
    {actors : List Snapshot} {current : ActorId} (admitted : Admits calls actors current)
    {log : Log} {decision : Decision} (ok : (policy.answer actors current log).1 = .ok decision) :
    Session settings past
      (calls ++ [⟨actors, current, policy, decision, (policy.answer actors current log).2⟩])
      (policy.answer actors current log).2 :=
  .choose ⟨actors, current, policy, decision, _⟩ session admitted (returns_of_ok ok)

theorem Session.executions
    {policy : Priority} (session : Session settings past calls policy) :
    ∀ execution ∈ past ++ [calls], (∀ call ∈ execution, call.Keeps settings) ∧
      execution.countP Call.changes ≤ settings.changePoints := by
  induction session with
  | start => simp
  | choose call session admitted chosen induction =>
      have played := played_of_returns chosen
      have keeps := session.standing.keeps admitted played
      have spare := (session.standing.choose admitted played).spare
      simp only [List.forall_mem_append, List.forall_mem_singleton] at induction ⊢
      exact ⟨induction.1, ⟨induction.2.1, keeps⟩, Nat.le_trans (Nat.le_add_right _ _) spare⟩
  | advance session advanced induction =>
      rw [List.forall_mem_append, List.forall_mem_singleton]
      exact ⟨induction, by simp⟩

theorem Standing.exists_choose
    {policy : Priority} (standing : Standing settings past calls policy)
    {actors : List Snapshot} {current : ActorId} (admitted : Admits calls actors current)
    (log : Log) :
    ∃ decision next written,
      (Scheduler.choose actors current).Returns (policy, log) decision (next, written) := by
  obtain ⟨count, orders, few⟩ := standing.orders
  obtain ⟨changed, kept, cut | decided⟩ :=
    orders.choose_cases admitted.numbered (few _ _ admitted) current log
  · exact ⟨_, _, _, returns_of_ok (congrArg Prod.fst cut)⟩
  · rcases kept.decide_cases with ⟨_, -, -, runs⟩ | ⟨-, stops⟩
    · exact ⟨_, _, _, returns_of_ok ((congrArg Prod.fst decided).trans runs)⟩
    · exact ⟨_, _, _, returns_of_ok ((congrArg Prod.fst decided).trans stops)⟩

theorem returns_advance (policy : Priority) (log : Log) :
    Scheduler.advance.Returns (policy, log) true (policy.advance.2, log) :=
  rfl

end Standing

theorem prioritizes_of_session
    {settings : Settings} {past : List (List Call)} {calls : List Call} {policy : Priority}
    (session : Session settings past calls policy) :
    Prioritizes settings past calls policy where
  keeps execution listed := (session.executions execution listed).1
  changes_le execution listed := (session.executions execution listed).2
  points := session.standing.points
  chooses _ _ admitted log := session.standing.exists_choose admitted log
  advances log := ⟨_, returns_advance policy log⟩

/-- Two actors that send to each other. -/
def senders : List Snapshot :=
  [⟨⟨0⟩, true, .send ⟨1⟩, none⟩, ⟨⟨1⟩, true, .send ⟨0⟩, none⟩]

/-- The senders are shown to the policy once, and the first of them has reached the point. -/
def once : Priority → Except Fault Decision × Priority := answer senders ⟨0⟩ (.empty .error)

theorem prioritizes_of_session_senders :
    ∃ past calls policy, Session { changePoints := 1 } past calls policy ∧
      (∃ call ∈ calls, call.changes = true ∧ call.decision = .run ⟨1⟩) ∧
      Prioritizes { changePoints := 1 } past calls policy := by
  have admits : Admits [] senders ⟨0⟩ := {
    numbered := by
      intro index snapshot there
      match index, there with
      | 0, there | 1, there => cases there; rfl
    current_lt := by decide
    kept := by simp }
  have chosen :
      (once (ofSettings { changePoints := 1 })).1 = .ok (.run ⟨0⟩) ∧
        (once (once (ofSettings { changePoints := 1 })).2.advance.2).1 = .ok (.run ⟨1⟩) ∧
        (once (once (ofSettings { changePoints := 1 })).2.advance.2).2.changePoints ≠
          (once (ofSettings { changePoints := 1 })).2.advance.2.changePoints := by
    decide +kernel
  unfold once at chosen
  obtain ⟨first, second, changed⟩ := chosen
  have begun := Session.ask .start admits first
  have ended := Session.advance begun (returns_advance _ (.empty .error))
  have session := ended.ask admits second
  refine ⟨_, _, _, session, ⟨_, List.mem_append_right _ (List.mem_singleton_self _), ?_, rfl⟩,
    prioritizes_of_session session⟩
  simpa only [Call.changes_iff] using changed

end Interleave.Policy.Priority
