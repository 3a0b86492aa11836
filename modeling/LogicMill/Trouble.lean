import LogicMill.Text.Bytes

/-! # Accounts of errors

An error is told as its innermost cause and the contexts that were added to it on the way out.

* `Trouble`: such an account, `Trouble.within` adds a context.
* `Trouble.message`: on one line, from the outermost context to the cause.
* `Trouble.trail`: on several lines, from the cause outwards.
-/

namespace LogicMill
set_option autoImplicit false

/-- What went wrong, and the contexts in which it did, the innermost first. -/
structure Trouble where
  cause : Bytes
  contexts : List Bytes := []
deriving Repr, DecidableEq

namespace Trouble

/-- The trouble seen from one context further out. -/
def within (t : Trouble) (context : Bytes) : Trouble :=
  { t with contexts := t.contexts ++ [context] }

/-- The account on one line: each context before what happened in it. -/
def message (t : Trouble) : Bytes :=
  t.contexts.foldl (fun inner context => context ++ utf8 ": " ++ inner) t.cause

/-- The account on several lines: the cause, then one line for each context. -/
def trail (t : Trouble) : Bytes := Bytes.join (utf8 "\n") (t.cause :: t.contexts)

end Trouble

end LogicMill
