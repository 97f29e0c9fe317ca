import DeskCalculator.Desk

/-!
# Command line options

`Options.ofArguments` reads the arguments of the program. An option has a long name, which may be
shortened as long as it stays unambiguous, and some have a letter; letters of options that take
nothing may be run together. An argument of an option follows it, or stands in the same word: after
an equals sign, or right behind a letter. The list of expressions takes all words that follow,
options too. There are no other arguments, so every word that belongs to no option is a misuse, and
so are two options that exclude each other. Every word is recognized before the first one takes
effect.
-/

namespace DeskCalculator.CommandLine

/-- The name of an option. -/
inductive Flag where
  | help
  | verbose
  | state
  | precision
  | exact
  | degrees
  | radians
  | expression
  | prompt
  | rawGrammar
  | dump
  deriving DecidableEq, Repr

/-- What follows an option. -/
inductive Intake where
  | nothing
  | one
  | atMostOne
  | everything
  deriving DecidableEq, Repr

namespace Flag

def all : List Flag :=
  [help, verbose, state, precision, exact, degrees, radians, expression, prompt, rawGrammar, dump]

/-- The long name, with its two dashes. -/
def long : Flag → Text
  | help => Text.ofString "--help"
  | verbose => Text.ofString "--verbose"
  | state => Text.ofString "--state"
  | precision => Text.ofString "--precision"
  | exact => Text.ofString "--exact"
  | degrees => Text.ofString "--degrees"
  | radians => Text.ofString "--radians"
  | expression => Text.ofString "--expression"
  | prompt => Text.ofString "--prompt"
  | rawGrammar => Text.ofString "--raw-grammar"
  | dump => Text.ofString "--dump"

def letter? : Flag → Option Char
  | help => some 'h'
  | verbose => some 'v'
  | state => some 's'
  | expression => some 'e'
  | prompt => some 'p'
  | rawGrammar => some 'G'
  | dump => some 'D'
  | _ => none

def intake : Flag → Intake
  | state | precision => .one
  | expression => .everything
  | prompt => .atMostOne
  | _ => .nothing

def ofLetter? (c : Char) : Option Flag := all.find? (·.letter? == some c)

def ofLong? (name : Text) : Option Flag := all.find? (·.long == name)

def startingWith (start : Text) : List Flag := all.filter fun f => Text.startsWith start f.long

end Flag

/-! ## Words -/

/-- What a word of the command line is recognized as. -/
inductive Word where
  /-- No option. -/
  | plain
  /-- The two dashes after which nothing is an option. -/
  | divider
  /-- Options that take nothing, then one with the argument in the same word, if any is there. -/
  | options (before : List Flag) (last : Flag) (attached : Option Text)
  /-- Options that take nothing, then what is no option. -/
  | unknown (before : List Flag)
  /-- An argument for an option that takes none. -/
  | refused
  deriving DecidableEq, Repr

namespace Word

/-- An option that has its argument in the same word. -/
def attach (before : List Flag) (f : Flag) (t : Text) : Word :=
  if f.intake = .nothing then refused else options before f (some t)

/-- What stands behind the letter of an option: nothing, more letters, or its argument. -/
def cluster (before : List Flag) (f : Flag) : Text → Word
  | [] => options before f none
  | '=' :: rest => attach before f rest
  | c :: rest =>
    if f.intake ≠ .nothing then options before f (some (c :: rest))
    else if c = '-' then refused
    else match Flag.ofLetter? c with
      | some g => cluster (before ++ [f]) g rest
      | none => unknown (before ++ [f])

/-- Whether a word is a negative number: digits behind a minus, with at most one point, which must
not come last. A line feed may follow. -/
def isNegativeNumber : Text → Bool
  | '-' :: rest =>
    let rest := if rest.getLast? = some '\n' then rest.dropLast else rest
    let isDigit := fun c => (Text.digit? c).isSome
    match rest.dropWhile isDigit with
    | [] => !rest.isEmpty
    | '.' :: fraction => !fraction.isEmpty && fraction.all isDigit
    | _ => false
  | _ => false

/-- A word that is no option. Only one that has the looks of an option is unknown. -/
def other (t : Text) : Word :=
  if isNegativeNumber t || t.contains ' ' then plain else unknown []

/-- A word with two dashes; `none` if it may be short for more than one option. -/
def ofLong? (t : Text) : Option Word :=
  let (name, argument) := Text.cut '=' t
  let attached := if t.contains '=' then some argument else none
  let word := fun f => match attached with
    | none => options [] f none
    | some argument => attach [] f argument
  match Flag.ofLong? name with
  | some f => some (word f)
  | none => match Flag.startingWith name with
    | [] => some (other t)
    | [f] => some (word f)
    | _ => none

/-- What a word is; `none` if it may be short for more than one option. -/
def ofText? (t : Text) : Option Word :=
  match t with
  | '-' :: '-' :: _ => ofLong? t
  | '-' :: c :: rest => match Flag.ofLetter? c with
    | some f => some (cluster [] f rest)
    | none => some (other t)
  | _ => some plain

/-- All words with what they are. After a divider none is an option. -/
def recognize? : List Text → Option (List (Text × Word))
  | [] => some []
  | t :: rest =>
    if t = ['-', '-'] then some ((t, divider) :: rest.map (·, plain))
    else do
      let word ← ofText? t
      let words ← recognize? rest
      return (t, word) :: words

def isDivider : Word → Bool
  | divider => true
  | _ => false

end Word

/-! ## Options -/

/-- What the program does. -/
inductive Action where
  | calculate
  | dump
  | rawGrammar
  deriving DecidableEq, Repr

structure Options where
  verbose : Bool := false
  /-- The path of the state file. -/
  state : Option Text := none
  precision : Option Int := none
  exact : Bool := false
  angle : Option AngleUnit := none
  /-- The lines to work through, instead of those of the input. -/
  expressions : Option (List Text) := none
  prompt : Option Text := none
  action : Action := .calculate
  deriving DecidableEq, Repr

/-- Why there is no run. -/
inductive Stop where
  | help
  | misuse
  deriving DecidableEq, Repr

namespace Options

def defaultPrompt : Text := ['>', ' ']

/-- Chooses a unit of angles, which excludes the other one. -/
def chooseAngle (o : Options) (unit : AngleUnit) : Except Stop Options :=
  if o.angle = some unit.other then .error .misuse else .ok { o with angle := some unit }

/-- Chooses what to do, which excludes doing anything else. -/
def chooseAction (o : Options) (action : Action) : Except Stop Options :=
  if o.action = .calculate ∨ o.action = action then .ok { o with action } else .error .misuse

def apply (o : Options) (f : Flag) (arguments : List Text) : Except Stop Options :=
  match f, arguments with
  | .help, _ => .error .help
  | .verbose, _ => .ok { o with verbose := true }
  | .exact, _ => .ok { o with exact := true }
  | .degrees, _ => o.chooseAngle .degrees
  | .radians, _ => o.chooseAngle .radians
  | .dump, _ => o.chooseAction .dump
  | .rawGrammar, _ => o.chooseAction .rawGrammar
  | .state, [t] => .ok { o with state := some t }
  | .precision, [t] => match Text.Integer.read? t with
    | some n => .ok { o with precision := some n }
    | none => .error .misuse
  | .expression, lines =>
    if o.prompt.isSome then .error .misuse else .ok { o with expressions := some lines }
  | .prompt, texts =>
    if o.expressions.isSome then .error .misuse
    else .ok { o with prompt := some (texts.head?.getD defaultPrompt) }
  | _, _ => .error .misuse

/-- Options that take nothing take effect one after the other. -/
def applyAll (o : Options) : List Flag → Except Stop Options
  | [] => .ok o
  | f :: rest => do (← o.apply f []).applyAll rest

/-- Options that take nothing take effect, and then one with its arguments. -/
def applyWord (o : Options) (before : List Flag) (f : Flag) (arguments : List Text) :
    Except Stop Options := do
  (← o.applyAll before).apply f arguments

/-- The options that words give, added to those before. `complete` tells whether all words so far
belong to an option. -/
def ofWords (o : Options) (complete : Bool) : List (Text × Word) → Except Stop Options
  | [] => if complete then .ok o else .error .misuse
  | (_, .plain) :: rest | (_, .divider) :: rest => o.ofWords false rest
  | (_, .refused) :: _ => .error .misuse
  | (_, .unknown before) :: rest => do (← o.applyAll before).ofWords false rest
  | (_, .options before f (some argument)) :: rest => do
    (← o.applyWord before f [argument]).ofWords complete rest
  | (_, .options before f none) :: rest =>
    match f.intake, rest with
    | .nothing, rest => do (← o.applyWord before f []).ofWords complete rest
    | .one, (t, .plain) :: rest | .atMostOne, (t, .plain) :: rest => do
      (← o.applyWord before f [t]).ofWords complete rest
    | .one, _ => .error .misuse
    | .atMostOne, rest => do (← o.applyWord before f []).ofWords complete rest
    | .everything, rest => do
      let o ← o.applyWord before f ((rest.takeWhile (!·.2.isDivider)).map (·.1))
      if complete && rest.all (!·.2.isDivider) then .ok o else .error .misuse

def ofArguments (arguments : List Text) : Except Stop Options :=
  match Word.recognize? arguments with
  | some words => ofWords {} true words
  | none => .error .misuse

end Options

end DeskCalculator.CommandLine
