import Interleave.Machine.Body

namespace Interleave.Greeting

inductive Message
  | word (word : String)
  | ask (reply : Address)
  | greeting (text : String)

inductive Body
  | greeterStart
  | greeterReceiving (own : Address) (words : List String)
  | greeterReplying
  | clientStart (greeter : Address)
  | clientSentFirst (greeter : Address)
  | clientSentSecond (greeter : Address)
  | clientOpening (greeter : Address)
  | clientAsking (reply : Address)
  | clientReceiving
  | rootStart
  | rootCreatingGreeter
  | rootCreatingClient (greeter : Address)
  | rootAwaitingClient (greeter : Address)
  | rootAwaitingGreeter

abbrev Step := Action Body Message

def stray : Step := .panic none

def judge (greeting : String) : Except ActorError Unit :=
  if greeting = "hello world" then .ok () else .error (.fault ("Unexpected greeting: " ++ greeting))

def advance : Body → Answer Message → Step
  | .greeterStart, .mailbox own => .call (.receive own) (.greeterReceiving own [])
  | .greeterReceiving own words, .message (.word word) =>
      .call (.receive own) (.greeterReceiving own (words ++ [word]))
  | .greeterReceiving _ words, .message (.ask reply) =>
      .call (.send reply (.greeting (String.intercalate " " words))) .greeterReplying
  | .greeterReplying, _ => .return (.ok ())
  | .clientStart greeter, _ => .call (.send greeter (.word "hello")) (.clientSentFirst greeter)
  | .clientSentFirst greeter, _ =>
      .call (.send greeter (.word "world")) (.clientSentSecond greeter)
  | .clientSentSecond greeter, _ => .call .mailbox (.clientOpening greeter)
  | .clientOpening greeter, .mailbox reply =>
      .call (.send greeter (.ask reply)) (.clientAsking reply)
  | .clientAsking reply, _ => .call (.receive reply) .clientReceiving
  | .clientReceiving, .message (.greeting greeting) => .return (judge greeting)
  | .rootStart, _ => .call (.create (some "greeter") .greeterStart) .rootCreatingGreeter
  | .rootCreatingGreeter, .mailbox greeter =>
      .call (.create (some "client") (.clientStart greeter)) (.rootCreatingClient greeter)
  | .rootCreatingClient greeter, .mailbox client =>
      .call (.join client.owner true) (.rootAwaitingClient greeter)
  | .rootAwaitingClient greeter, _ => .call (.join greeter.owner true) .rootAwaitingGreeter
  | .rootAwaitingGreeter, _ => .return (.ok ())
  | _, _ => stray

def resume (_ : View Message) (body : Body) : Reply Message → Step
  | .ok answer => advance body answer
  | .error error => .return (.error error)

def program : Program Body Message where
  root _ := .rootStart
  resume := resume

theorem program_steady : program.Steady := fun _ _ => rfl

theorem program_unwinds : program.Unwinds := fun _ _ => rfl

end Interleave.Greeting
