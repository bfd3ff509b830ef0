import RowBlock.Error

set_option autoImplicit false

/-! # Processes

What a rank does is a *process*: it has a result, it has failed, or it asks its surroundings for
something and goes on as the answer tells. Everything a rank does to the world around it is such
a request: messages, the clock, the log, its output, files, and the end of the program. What the
answers are is not said here, so a process can be studied under every behaviour of the network,
of the other ranks and of the files.
-/

namespace RowBlock

/-! ## Requests

The type of an answer depends on the request. A receive is answered with a message or a refusal and
may also stay without any answer; requests that end the program have no answers at all. -/

structure RoundResult where
  product : Tensor
  assignments : List Assignment
  elapsed : Float

inductive Stream where
  | output
  | errors
  deriving DecidableEq, Repr

/-- What a process asks for. -/
inductive Request where
  | send (dest : Int) (channel : Channel) (payload : Payload)
  | receive (source : Source) (channel : Channel)
  | clock
  | entropy
  | setUpLog (setup : LogSetup)
  | record (entry : LogRecord)
  | print (stream : Stream) (text : String)
  | read (path : String)
  | write (path : String) (content : Content)
  | publish (result : RoundResult)
  | exit (code : Nat)
  | abort (code : Int)

/-- What a request is answered with. The last two are never answered. -/
def Request.Answer : Request → Type
  | send _ _ _ => Except Refusal Unit
  | receive _ _ => Except Refusal (Nat × Payload)
  | clock => Float
  | entropy => Nat
  | setUpLog _ => Unit
  | record _ => Unit
  | print _ _ => Unit
  | read _ => Except FileError (List UInt8)
  | write _ _ => Except FileError Unit
  | publish _ => Unit
  | exit _ => Empty
  | abort _ => Empty

/-! ## The monad

A process is the free monad of the requests, with failure added. A failure passes through everything
that follows; only `recover` looks at it. -/

/-- **A process** with a result of type `α`. -/
inductive Process (α : Type) where
  | done (a : α)
  | failed (error : Error)
  | ask (request : Request) (next : request.Answer → Process α)

namespace Process

variable {α β γ : Type}

/-- One process after another. -/
def bind (p : Process α) (f : α → Process β) : Process β :=
  match p with
  | done a => f a
  | failed e => failed e
  | ask r next => ask r fun answer => (next answer).bind f

instance : Monad Process where
  pure := done
  bind := bind

def recover (p : Process α) (handle : Error → Process α) : Process α :=
  match p with
  | done a => done a
  | failed e => handle e
  | ask r next => ask r fun answer => (next answer).recover handle

@[simp]
theorem done_bind (a : α) (f : α → Process β) : done a >>= f = f a := rfl

@[simp]
theorem failed_bind (e : Error) (f : α → Process β) : failed e >>= f = failed e := rfl

@[simp]
theorem ask_bind (r : Request) (next : r.Answer → Process α) (f : α → Process β) :
    ask r next >>= f = ask r fun answer => next answer >>= f := rfl

/-- A process is the same with an empty one after it. -/
theorem bind_done (p : Process α) : p >>= done = p := by
  induction p with
  | done a => rfl
  | failed e => rfl
  | ask r next ih => simp only [ask_bind, ih]

/-- Three processes one after another can be grouped either way. -/
theorem bind_assoc (p : Process α) (f : α → Process β) (g : β → Process γ) :
    (p >>= f) >>= g = p >>= fun a => f a >>= g := by
  induction p with
  | done a => rfl
  | failed e => rfl
  | ask r next ih => simp only [ask_bind, ih]

/-! ## Small processes -/

/-- The process that asks for one thing. -/
def request (r : Request) : Process r.Answer := ask r done

def now : Process Float := request .clock

def ofExcept {ε : Type} (error : ε → Error) : Except ε α → Process α
  | .ok a => done a
  | .error e => failed (error e)

def note (logger : String) (level : Level) (text : String) : Process Unit :=
  request (.record ⟨logger, level, text⟩)

def times (p : Process Unit) : Nat → Process Unit
  | 0 => done ()
  | n + 1 => p >>= fun _ => times p n

/-- A process for each item of a list, in order. -/
def forEach (f : α → Process Unit) : List α → Process Unit
  | [] => done ()
  | a :: rest => f a >>= fun _ => forEach f rest

end Process

end RowBlock
