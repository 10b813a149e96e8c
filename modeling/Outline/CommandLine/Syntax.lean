/-!
# Arguments

Options begin with hyphens and may take a value; the other arguments are words.  A double hyphen
ends the options.
-/

namespace Outline.CommandLine

/-- An option that a command knows. -/
structure Spec where
  /-- The name after two hyphens. -/
  name : String
  /-- The letter after one hyphen. -/
  letter : Option Char := none
  takesValue : Bool := true

/-- What an argument is when it stands before the end of the options. -/
inductive Token where
  | endOfOptions
  | word (text : String)
  /-- An option with the value that is attached to it, if any. -/
  | option (spec : Spec) (attached : Option String)

/-- Whether an argument cannot be an option: it does not begin with a hyphen, or is nothing else. -/
def isWord (arg : String) : Bool :=
  match arg.toList with
  | '-' :: _ :: _ => false
  | _ => true

/-- Reads an argument; an option has to be known. -/
def token? (specs : List Spec) (arg : String) : Option Token :=
  match arg.toList with
  | ['-', '-'] => some .endOfOptions
  | '-' :: '-' :: rest =>
    let name := String.ofList (rest.takeWhile (· ≠ '='))
    let attached := match rest.dropWhile (· ≠ '=') with
      | [] => none
      | _ :: value => some (String.ofList value)
    (specs.find? (·.name = name)).map fun spec => .option spec attached
  | '-' :: letter :: rest =>
    let attached := match rest with
      | [] => none
      | '=' :: value => some (String.ofList value)
      | value => some (String.ofList value)
    (specs.find? (·.letter = some letter)).map fun spec => .option spec attached
  | _ => some (.word arg)

/-- The options given, each by its name with its value, and the words. -/
structure Parsed where
  options : List (String × String) := []
  words : List String := []

/-- Puts an option in front. -/
def Parsed.withOption (name value : String) (parsed : Parsed) : Parsed :=
  { parsed with options := (name, value) :: parsed.options }

/-- Puts a word in front. -/
def Parsed.withWord (word : String) (parsed : Parsed) : Parsed :=
  { parsed with words := word :: parsed.words }

/-- Reads arguments.  If `leading` is set, the first word ends the options, all that follows it is
left as it stands, and a double hyphen may not come first. -/
def scan? (specs : List Spec) (leading : Bool) : List String → Option Parsed
  | [] => some {}
  | arg :: rest =>
    match token? specs arg with
    | none => none
    | some .endOfOptions => if leading then none else some { words := rest }
    | some (.word word) =>
      if leading then some { words := word :: rest }
      else (scan? specs leading rest).map (·.withWord word)
    | some (.option spec attached) =>
      if spec.takesValue then
        match attached with
        | some value => (scan? specs leading rest).map (·.withOption spec.name value)
        | none =>
          match rest with
          | value :: rest =>
            if isWord value then (scan? specs leading rest).map (·.withOption spec.name value)
            else none
          | [] => none
      else if attached.isSome then
        none
      else
        (scan? specs leading rest).map (·.withOption spec.name "")

/-- Reads arguments among which no option is repeated. -/
def parse? (specs : List Spec) (leading : Bool) (args : List String) : Option Parsed :=
  (scan? specs leading args).filter fun parsed => (parsed.options.map (·.1)).Nodup

/-- The value of an option, if it is given. -/
def Parsed.value? (parsed : Parsed) (name : String) : Option String :=
  parsed.options.lookup name

/-- Whether an option is given. -/
def Parsed.has (parsed : Parsed) (name : String) : Bool :=
  (parsed.value? name).isSome

end Outline.CommandLine
