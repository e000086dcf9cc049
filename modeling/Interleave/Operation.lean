import Interleave.Actor.Id

namespace Interleave

inductive OpKind
  | invalid
  | start
  | stop
  | create
  | join
  | send
  | receive
  | awaitDeadlock
  | yield
deriving DecidableEq

namespace OpKind

def all : List OpKind :=
  [invalid, start, stop, create, join, send, receive, awaitDeadlock, yield]

def text : OpKind → String
  | invalid => "Invalid"
  | start => "Start"
  | stop => "End"
  | create => "Create"
  | join => "Join"
  | send => "Send"
  | receive => "Receive"
  | awaitDeadlock => "WaitForDeadlock"
  | yield => "Yield"

def ofText? (text : String) : Option OpKind :=
  all.find? fun kind => kind.text = text

@[simp] theorem ofText?_text (kind : OpKind) : ofText? kind.text = some kind := by
  cases kind <;> decide

/-- Running a step of this kind releases the actors that have yielded. -/
def isProgress : OpKind → Bool
  | invalid | yield | awaitDeadlock => false
  | _ => true

end OpKind

inductive TargetKind
  | thread
  | queue
deriving DecidableEq

namespace TargetKind

def text : TargetKind → String
  | thread => "Thread"
  | queue => "Queue"

def ofText? (text : String) : Option TargetKind :=
  [thread, queue].find? fun kind => kind.text = text

@[simp] theorem ofText?_text (kind : TargetKind) : ofText? kind.text = some kind := by
  cases kind <;> decide

end TargetKind

/-- The target is absent where it is not known yet: the child of a create has no number before
it exists. -/
structure Operation where
  kind : OpKind
  targetKind : TargetKind
  target : Option ActorId
deriving DecidableEq

namespace Operation

def invalid : Operation := ⟨.invalid, .thread, none⟩

def start (actor : ActorId) : Operation := ⟨.start, .thread, some actor⟩

def stop (actor : ActorId) : Operation := ⟨.stop, .thread, some actor⟩

def create : Operation := ⟨.create, .thread, none⟩

def join (other : ActorId) : Operation := ⟨.join, .thread, some other⟩

def send (owner : ActorId) : Operation := ⟨.send, .queue, some owner⟩

def receive (owner : ActorId) : Operation := ⟨.receive, .queue, some owner⟩

def yield (actor : ActorId) : Operation := ⟨.yield, .thread, some actor⟩

def awaitDeadlock (actor : ActorId) : Operation := ⟨.awaitDeadlock, .thread, some actor⟩

/-- Both touch the same target, and if that is a queue both send to it: a queue has one receiver,
and a send that enables a receive precedes it. -/
def dependent (left right : Operation) : Bool :=
  left.target.isSome && left.target = right.target && left.targetKind = right.targetKind &&
    match left.targetKind with
    | .queue => left.kind = .send && right.kind = .send
    | .thread => true

private theorem dependent_of_dependent {left right : Operation} (related : left.dependent right) :
    right.dependent left := by
  obtain ⟨leftKind, leftTarget, leftId⟩ := left
  obtain ⟨rightKind, rightTarget, rightId⟩ := right
  simp only [dependent, Bool.and_eq_true, decide_eq_true_eq] at related ⊢
  obtain ⟨⟨⟨known, rfl⟩, rfl⟩, sends⟩ := related
  refine ⟨⟨⟨known, rfl⟩, rfl⟩, ?_⟩
  cases leftTarget with
  | thread => rfl
  | queue => simpa [and_comm] using sends

theorem dependent_comm (left right : Operation) :
    left.dependent right = right.dependent left :=
  Bool.eq_iff_iff.mpr ⟨dependent_of_dependent, dependent_of_dependent⟩

def text (operation : Operation) : String :=
  operation.kind.text ++ ", " ++ operation.targetKind.text ++ "-" ++
    Text.optional ActorId.text operation.target

end Operation

end Interleave
