import StorySuite.Text.Basic

/-!
# Argument lists

A form says which options and operands a command takes and what each of them puts into its request.
`Form.read` goes through a list of arguments and puts the request together.

An option is written `--name value`, `--name=value`, `-n value`, `-nvalue` or `-n=value`; short ones
may share a dash, and behind `--` there are only operands.  A value is looked at when the next option
comes, or the end, so an argument that is not known is reported before a value in front of it.
-/

namespace StorySuite.Arguments

/-- Why a value is refused. -/
inductive ValueError where
  | empty
  | refused (why : Text)
  deriving DecidableEq, Repr

/-- Why a list of arguments is refused. -/
inductive UsageError where
  | unexpected (arg : Text)
  | missingValue (label : Text)
  | surplusValue (value label : Text)
  | invalidValue (value label why : Text)
  | repeated (label : Text)
  | missingOperand
  | unknownCommand (name : Text)
  | hiddenCommand (name : Text)
  | noCommand
  deriving DecidableEq, Repr

/-- Something between quotes. -/
def quoted (t : Text) : Text := '\x27' :: t ++ ['\x27']

/-- What the program does, in a line. -/
def summary : Text := "Rewrite story files so each story registers itself as a test"

def UsageError.message : UsageError → Text
  | unexpected arg => "error: unexpected argument ".toList ++ quoted arg ++ " found".toList
  | missingValue label =>
    "error: a value is required for ".toList ++ quoted label ++ " but none was supplied".toList
  | surplusValue value label =>
    "error: unexpected value ".toList ++ quoted value ++ " for ".toList ++ quoted label ++
      " found; no more were expected".toList
  | invalidValue value label why =>
    "error: invalid value ".toList ++ quoted value ++ " for ".toList ++ quoted label ++
      ": ".toList ++ why
  | repeated label =>
    "error: the argument ".toList ++ quoted label ++ " cannot be used multiple times".toList
  | missingOperand => "error: the following required arguments were not provided:"
  | unknownCommand name => "error: unrecognized subcommand ".toList ++ quoted name
  | hiddenCommand name =>
    "error: subcommand ".toList ++ quoted name ++ " exists; to use it, remove the ".toList ++
      quoted "--" ++ " before it".toList
  | noCommand => summary

/-- What an option does to a request. -/
inductive Action (σ : Type) where
  /-- It has no value and may be given once. -/
  | switch (put : σ → σ)
  /-- It has a value, whose name is shown in messages. -/
  | value (name : Text) (repeatable : Bool) (put : Text → Except ValueError (σ → σ))

/-- An option: its name behind two dashes, and the letter behind one. -/
structure Flag (σ : Type) where
  long : Text
  short : Option Char
  action : Action σ

/-- What is not an option. -/
structure Operand (σ : Type) where
  name : Text
  repeatable : Bool
  put : Text → Except ValueError (σ → σ)

/-- The options and operands of a command, and the request without any of them.  A command that takes
operands needs one. -/
structure Form (σ : Type) where
  flags : List (Flag σ)
  operand : Option (Operand σ)
  start : σ

/-- An option as messages show it. -/
def Flag.label {σ : Type} (f : Flag σ) : Text :=
  '-' :: '-' :: f.long ++
    match f.action with
    | .switch _ => []
    | .value name _ _ => ' ' :: '<' :: name ++ ['>']

/-- An operand as messages show it. -/
def Operand.label {σ : Type} (o : Operand σ) : Text :=
  '<' :: o.name ++ '>' :: (if o.repeatable then ['.', '.', '.'] else [])

/-- What is read but not looked at yet. -/
inductive Pending (σ : Type) where
  | nothing
  | option (f : Flag σ) (value : Option Text)
  | operands (o : Operand σ) (values : List Text)

/-- What is known of a request halfway through its arguments. -/
structure State (σ : Type) where
  request : σ
  /-- The options that are seen. -/
  given : List Text
  /-- The number of operands that are seen. -/
  operands : Nat
  pending : Pending σ
  /-- Whether only operands may follow. -/
  plain : Bool

namespace Form

variable {σ : Type}

def accept (put : Text → Except ValueError (σ → σ)) (label value : Text) (request : σ) :
    Except UsageError σ :=
  match put value with
  | .ok f => .ok (f request)
  | .error .empty => .error (.missingValue label)
  | .error (.refused why) => .error (.invalidValue value label why)

/-- A request with the values of operands in it. -/
def acceptAll (o : Operand σ) : List Text → σ → Except UsageError σ
  | [], request => .ok request
  | v :: vs, request =>
    match accept o.put o.label v request with
    | .ok r => acceptAll o vs r
    | .error e => .error e

/-- A request with an option in it. -/
def apply (s : State σ) (f : Flag σ) (value : Option Text) : Except UsageError (State σ) :=
  match f.action, value with
  | .value _ _ _, none => .error (.missingValue f.label)
  | .value _ repeatable put, some v =>
    if !repeatable && s.given.contains f.long then .error (.repeated f.label)
    else (accept put f.label v s.request).map fun r => { s with request := r, given := f.long :: s.given }
  | .switch put, _ =>
    if s.given.contains f.long then .error (.repeated f.label)
    else .ok { s with request := put s.request, given := f.long :: s.given }

/-- Looks at what is pending. -/
def settle (s : State σ) : Except UsageError (State σ) :=
  match s.pending with
  | .nothing => .ok s
  | .option f value => apply { s with pending := .nothing } f value
  | .operands o values =>
    (acceptAll o values s.request).map fun r => { s with request := r, pending := .nothing }

/-- An option with a value in the same argument, or without one. -/
def takeFlag (s : State σ) (f : Flag σ) (value : Option Text) : Except UsageError (State σ) :=
  match f.action, value with
  | .switch _, some v => .error (.surplusValue v f.label)
  | .switch _, none => (settle s).bind fun s => apply s f none
  | .value _ _ _, some v => (settle s).bind fun s => apply s f (some v)
  | .value _ _ _, none => (settle s).map fun s => { s with pending := .option f none }

def takeOperand (form : Form σ) (s : State σ) (arg : Text) : Except UsageError (State σ) :=
  match form.operand with
  | none => .error (.unexpected arg)
  | some o =>
    if s.operands != 0 && !o.repeatable then .error (.unexpected arg)
    else match s.pending with
      | .operands _ values =>
        .ok { s with pending := .operands o (values ++ [arg]), operands := s.operands + 1 }
      | _ => (settle s).map fun s =>
        { s with pending := .operands o [arg], operands := s.operands + 1 }

/-- The name of a long option, and its value if there is one. -/
def splitValue (t : Text) : Text × Option Text :=
  match t.dropWhile (· != '=') with
  | [] => (t, none)
  | _ :: v => (t.takeWhile (· != '='), some v)

/-- A value in the same argument as a short option. -/
def attached (t : Text) : Option Text :=
  match t with
  | [] => none
  | '=' :: v => some v
  | v => some v

/-- Short options that share a dash. -/
def takeShort (form : Form σ) (s : State σ) : Text → Except UsageError (State σ)
  | [] => .ok s
  | c :: t =>
    match form.flags.find? (·.short = some c) with
    | none => .error (.unexpected ['-', c])
    | some f =>
      match f.action with
      | .switch _ =>
        match takeFlag s f none with
        | .ok s => takeShort form s t
        | .error e => .error e
      | .value _ _ _ => takeFlag s f (attached t)

def take (form : Form σ) (s : State σ) (arg : Text) : Except UsageError (State σ) :=
  if s.plain then takeOperand form s arg
  else match arg with
    | ['-', '-'] => .ok { s with plain := true }
    | '-' :: '-' :: t =>
      let (name, value) := splitValue t
      match form.flags.find? (·.long = name) with
      | some f => takeFlag s f value
      | none => .error (.unexpected ('-' :: '-' :: name))
    | '-' :: c :: t => takeShort form s (c :: t)
    | _ =>
      match s.pending with
      | .option f none => .ok { s with pending := .option f (some arg) }
      | _ => takeOperand form s arg

def takeAll (form : Form σ) (s : State σ) : List Text → Except UsageError (State σ)
  | [] => settle s
  | a :: as =>
    match take form s a with
    | .ok s => takeAll form s as
    | .error e => .error e

/-- The request of a list of arguments. -/
def read (form : Form σ) (args : List Text) : Except UsageError σ :=
  match takeAll form ⟨form.start, [], 0, .nothing, false⟩ args with
  | .error e => .error e
  | .ok s =>
    if form.operand.isSome && s.operands = 0 then .error .missingOperand else .ok s.request

end Form

end StorySuite.Arguments
