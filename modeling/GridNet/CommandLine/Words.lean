import GridNet.Text.Blank

/-!
# The words of a command line

A word that starts with a dash names an option, and it may carry a value: behind an equals sign, or,
if the name is a single letter, right behind that letter. A single dash is a word like any other,
and two dashes end the options.

An option acts on a state. Reading a command line is a fold over its words that ends at the first
word that is not an option, and that breaks off at the first word that is wrong.

* `Word.shape` — what a single word is.
* `readOptions` — the options at the front of a command line.
-/

namespace GridNet.CommandLine

/-- The **name of an option**. -/
inductive OptionName
  /-- behind two dashes -/
  | long (name : String)
  /-- behind one -/
  | short (letter : Char)
deriving DecidableEq

/-- What a **word** is by its dashes. -/
inductive WordShape
  | plain
  /-- two dashes alone -/
  | divider
  | option (name : OptionName) (attached : Option String)
deriving DecidableEq

/-- The value behind a single letter. An equals sign in front of it does not count. -/
def attachedValue : List Char → Option String
  | [] => none
  | '=' :: cs => some (String.ofList cs)
  | cs => some (String.ofList cs)

/-- A name of several letters, and what stands behind an equals sign. -/
def longOption (cs : List Char) : WordShape :=
  let name := String.ofList (cs.takeWhile (· != '='))
  match cs.dropWhile (· != '=') with
  | [] => .option (.long name) none
  | _ :: value => .option (.long name) (some (String.ofList value))

/-- The shape of a word. -/
def wordShape (word : String) : WordShape :=
  match word.toList with
  | ['-'] => .plain
  | ['-', '-'] => .divider
  | '-' :: '-' :: cs => longOption cs
  | '-' :: letter :: cs => .option (.short letter) (attachedValue cs)
  | _ => .plain

/-- Why a command line leads to **no run**. -/
inductive Halt
  | help
  | version
  /-- a command line that means nothing -/
  | misuse (reason : String)
deriving DecidableEq

/-- What an option **does** to a state. Nothing comes of it if it stood before, or if its value
cannot be read. -/
inductive OptionEffect (σ : Type)
  | switch (set : σ → Option σ)
  | value (set : String → σ → Option σ)
  | halt (reason : Halt)

/-- An **option**. -/
structure CommandOption (σ : Type) where
  names : List OptionName
  effect : OptionEffect σ

namespace OptionEffect

/-- A switch that may stand once. -/
def raise {σ : Type} (get : σ → Bool) (set : σ → σ) : OptionEffect σ :=
  .switch fun s => if get s then none else some (set s)

/-- A value that may stand once. -/
def fill {σ α : Type} (read : String → Option α) (get : σ → Option α)
    (set : Option α → σ → σ) : OptionEffect σ :=
  .value fun text s => if (get s).isSome then none else (read text).map fun x => set (some x) s

/-- The effect on a part of a larger state. -/
def on {σ τ : Type} (get : τ → σ) (set : σ → τ → τ) : OptionEffect σ → OptionEffect τ
  | switch f => switch fun t => (f (get t)).map fun s => set s t
  | value f => value fun text t => (f text (get t)).map fun s => set s t
  | halt reason => halt reason

end OptionEffect

namespace CommandOption

/-- An option with a long name. -/
def long {σ : Type} (name : String) (effect : OptionEffect σ) : CommandOption σ :=
  { names := [.long name], effect }

/-- An option with a long name and a letter. -/
def either {σ : Type} (name : String) (letter : Char) (effect : OptionEffect σ) :
    CommandOption σ :=
  { names := [.long name, .short letter], effect }

/-- The option for a part of a larger state. -/
def on {σ τ : Type} (get : τ → σ) (set : σ → τ → τ) (o : CommandOption σ) : CommandOption τ :=
  { names := o.names, effect := o.effect.on get set }

end CommandOption

/-- The state behind an option, which has to come to something. -/
def orMisuse {σ : Type} (word : String) : Option σ → Except Halt σ
  | some s => .ok s
  | none => .error (.misuse s!"'{word}' is repeated or has a value that cannot be read")

/-- An option that ends the reading takes no value with its long name. -/
def haltAt (word : String) (reason : Halt) : OptionName → Option String → Halt
  | .long _, some _ => .misuse s!"'{word}' takes no value"
  | _, _ => reason

/-- What the option of a name does, if there is one. -/
def effectOf? {σ : Type} (options : List (CommandOption σ)) (name : OptionName) :
    Option (OptionEffect σ) :=
  (options.find? (·.names.contains name)).map (·.effect)

/-- Reads the options at the front of a command line. The words from the first plain one on are
left. Behind a divider nothing may follow. A value that is a word of its own must be plain. -/
def readOptions {σ : Type} (options : List (CommandOption σ)) :
    σ → List String → Except Halt (σ × List String)
  | s, [] => .ok (s, [])
  | s, word :: rest =>
    match wordShape word with
    | .plain => .ok (s, word :: rest)
    | .divider =>
      if rest.isEmpty then .ok (s, []) else .error (.misuse "nothing is expected behind '--'")
    | .option name attached =>
      match effectOf? options name, attached, rest with
      | some (.halt reason), attached, _ => .error (haltAt word reason name attached)
      | some (.switch set), none, rest => do
        readOptions options (← orMisuse word (set s)) rest
      | some (.value set), some text, rest => do
        readOptions options (← orMisuse word (set text s)) rest
      | some (.value set), none, text :: rest =>
        if wordShape text = .plain then do
          readOptions options (← orMisuse word (set text s)) rest
        else .error (.misuse s!"'{word}' needs a value")
      | some (.value _), none, [] => .error (.misuse s!"'{word}' needs a value")
      | some (.switch _), some _, _ => .error (.misuse s!"'{word}' takes no value")
      | none, _, _ => .error (.misuse s!"'{word}' is not expected here")

end GridNet.CommandLine
