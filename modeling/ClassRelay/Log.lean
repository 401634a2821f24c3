/-!
# Logged results

Nothing in this library prints. What an operator should hear about is part of a result:
`Logged ε α` is a value together with the entries that were emitted on the way to it, oldest
first. The entries stay values of the domain (a warning about a class file, an event on a
channel) until `LogRecord` gives them a level and a text.
-/

namespace ClassRelay

/-- How urgent a log record is. -/
inductive Level
  | debug
  | warn
  deriving DecidableEq

/-- The word that names a level in a log line. -/
def Level.label : Level → String
  | debug => "DEBUG"
  | warn => "WARN"

/-- One line of a log: its level and its text. -/
structure LogRecord where
  level : Level
  text : String
  deriving DecidableEq

/-- A record as one line, the level first. -/
def LogRecord.line (r : LogRecord) : String :=
  r.level.label ++ " " ++ r.text

/-- A value together with the log entries emitted while it was computed, oldest first. -/
structure Logged (ε α : Type) where
  value : α
  log : List ε
  deriving DecidableEq

namespace Logged

variable {ε α β : Type}

instance : Monad (Logged ε) where
  pure a := ⟨a, []⟩
  bind x f := ⟨(f x.value).value, x.log ++ (f x.value).log⟩

@[simp] theorem value_pure (a : α) : (pure a : Logged ε α).value = a := rfl

@[simp] theorem log_pure (a : α) : (pure a : Logged ε α).log = [] := rfl

@[simp] theorem value_bind (x : Logged ε α) (f : α → Logged ε β) :
    (x >>= f).value = (f x.value).value := rfl

@[simp] theorem log_bind (x : Logged ε α) (f : α → Logged ε β) :
    (x >>= f).log = x.log ++ (f x.value).log := rfl

/-- A result that emits one entry when it is an error and none when it is not. -/
def onError (report : α → ε) (r : Except α β) : Logged ε (Except α β) :=
  match r with
  | .ok b => ⟨.ok b, []⟩
  | .error a => ⟨.error a, [report a]⟩

@[simp] theorem value_onError (report : α → ε) (r : Except α β) :
    (onError report r).value = r := by
  cases r <;> rfl

/-- The values of a list of logged results, with all their entries in the order of the list. -/
def sequence (xs : List (Logged ε α)) : Logged ε (List α) :=
  ⟨xs.map value, xs.flatMap log⟩

@[simp] theorem value_sequence (xs : List (Logged ε α)) : (sequence xs).value = xs.map value := rfl

@[simp] theorem log_sequence (xs : List (Logged ε α)) : (sequence xs).log = xs.flatMap log := rfl

end Logged

/-- What some of the items of a list give, with that of the first item apart. -/
theorem filterMap_cons_eq_append {α β : Type} (f : α → Option β) (x : α) (xs : List α) :
    (x :: xs).filterMap f = (f x).toList ++ xs.filterMap f := by
  rw [List.filterMap_cons]
  cases f x <;> rfl

end ClassRelay
