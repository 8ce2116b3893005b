import DocTree.FileSystem

/-!
# Log

What a run reports while it works. A traced computation on files carries its records along and
ends with a result or with the fault that stopped it.
-/
namespace DocTree

inductive Severity where
  | debug
  | info
  | warning
  | error
  deriving DecidableEq, Repr

def Severity.name : Severity → String
  | .debug => "DEBUG"
  | .info => "INFO"
  | .warning => "WARNING"
  | .error => "ERROR"

def Severity.rank : Severity → Nat
  | .debug => 10
  | .info => 20
  | .warning => 30
  | .error => 40

structure Record where
  severity : Severity
  source : String
  message : Text
  deriving DecidableEq, Repr

def Record.toText (r : Record) : Text :=
  r.severity.name.toList ++ " mdindex.".toList ++ r.source.toList ++ ": ".toList ++ r.message

/-- The records of a computation, and how it ended. -/
structure Traced (α : Type) where
  records : List Record
  outcome : Except Fault α

namespace Traced

variable {α β : Type}

def lift (outcome : Except Fault α) : Traced α :=
  ⟨[], outcome⟩

def report (records : List Record) : Traced Unit :=
  ⟨records, .ok ()⟩

def bind (t : Traced α) (f : α → Traced β) : Traced β :=
  match t.outcome with
  | .ok a => ⟨t.records ++ (f a).records, (f a).outcome⟩
  | .error fault => ⟨t.records, .error fault⟩

instance : Monad Traced where
  pure a := lift (.ok a)
  bind := bind

end Traced

end DocTree
