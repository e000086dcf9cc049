import Interleave.Code.Expr

namespace Interleave.Code

inductive Instruction
  /-- Creates an actor that runs the body of that name with copies of some variables, and keeps its
  mailbox. The actor has a name if the expression is not null. -/
  | create (result body : String) (name : Expr) (copied : List String)
  | mailbox (result : String)
  | send (mailbox message : Expr)
  | receive (result : String) (mailbox : Expr)
  /-- Joins the owner of a mailbox. -/
  | await (mailbox : Expr)
  | join (actor : Expr) (strict : Bool)
  | yield
  | awaitDeadlock
  | rename (name : Expr)
  | cancel
  | fail (error : ActorError)
  | fault (message : Expr)
  | panic (payload : Option Expr)
  | note (value : Expr)
  | noteStatuses
  /-- Notes the text of the fault of a call from outside of any actor. -/
  | stray
  | assign (name : String) (value : Expr)
  | branch (condition : Expr) (yes no : List Instruction)
  /-- Repeats so many times, or for ever if the count is null. -/
  | loop (count : Expr) (body : List Instruction)
  | break
  | return
  /-- Runs the instructions and keeps the text of their error, or null. The end of the execution is
  an error that only `all` handles. -/
  | handle (result : String) (all : Bool) (body : List Instruction)

abbrev Source := List (String × List Instruction)

end Interleave.Code
