import FlowGraph.Tool.Command

/-! The command line. Options come before and after the name of the command, each as a word of its
own or several letters in one word; values follow in the same word or as the next one. -/
namespace FlowGraph.Tool

/-- Options with a value. -/
inductive Parameter
  | config
  | model
  | output
  | pass
  | input
deriving DecidableEq, Repr

namespace Parameter

def name : Parameter → String
  | config => "config"
  | model => "model"
  | output => "output"
  | pass => "pass"
  | input => "input"

def letter : Parameter → Char
  | config => 'c'
  | model => 'm'
  | output => 'o'
  | pass => 'p'
  | input => 'i'

/-- Whether it may be given more than once. -/
def repeats : Parameter → Bool
  | pass | input => true
  | _ => false

/-- A path may not be empty. -/
def accepts (p : Parameter) (value : String) : Bool := p.repeats || value ≠ ""

end Parameter

/-- Requests that are answered at once. -/
inductive Inquiry
  | help
  | version
deriving DecidableEq, Repr

inductive Switch
  /-- More messages on the error stream; it changes nothing else. -/
  | verbose
  | inquiry (i : Inquiry)
  | parameter (p : Parameter)
deriving DecidableEq, Repr

namespace Switch

def name : Switch → String
  | verbose => "verbose"
  | inquiry .help => "help"
  | inquiry .version => "version"
  | parameter p => p.name

def letter : Switch → Char
  | verbose => 'v'
  | inquiry .help => 'h'
  | inquiry .version => 'V'
  | parameter p => p.letter

end Switch

inductive Verb
  | inspect
  | transform
  | convert
  | compute
  | demo
deriving DecidableEq, Repr

namespace Verb

def all : List Verb := [inspect, transform, convert, compute, demo]

def name : Verb → String
  | inspect => "inspect"
  | transform => "transform"
  | convert => "convert"
  | compute => "compute"
  | demo => "demo"

def ofName? (name : String) : Option Verb := all.find? (·.name = name)

def parameters : Verb → List Parameter
  | inspect => [.model]
  | transform => [.model, .output, .pass]
  | convert => [.model, .output]
  | compute => [.model, .input]
  | demo => [.output]

end Verb

/-- The switches before the verb. -/
def commonSwitches : List Switch := [.parameter .config, .verbose, .inquiry .help]

def Verb.switches (v : Verb) : List Switch := commonSwitches ++ v.parameters.map .parameter

/-- The values given so far, in their order. -/
abbrev Given := List (Parameter × String)

/-- Adds a value, unless it is not acceptable or the second one of a single option. -/
def give? (given : Given) (p : Parameter) (value : String) : Option Given :=
  if !p.accepts value || (!p.repeats && given.any (·.1 = p)) then none
  else some (given ++ [(p, value)])

/-- What a word with options has to say. -/
inductive Reading
  | nothing
  | inquiry (i : Inquiry)
  | value (p : Parameter) (text : String)
  /-- The value is the next word. -/
  | awaited (p : Parameter)

/-- The text after an equals sign, if there is one. -/
def afterEquals? (text : List Char) : Option String :=
  match text.dropWhile (· ≠ '=') with
  | [] => none
  | _ :: value => some (String.ofList value)

/-- Reads a word after its two dashes. -/
def readName? (switches : List Switch) (word : List Char) : Option Reading := do
  let name := String.ofList (word.takeWhile (· ≠ '='))
  match ← switches.find? (·.name = name), afterEquals? word with
  | .parameter p, some value => some (.value p value)
  | .parameter p, none => some (.awaited p)
  | .verbose, none => some .nothing
  | .inquiry i, none => some (.inquiry i)
  | _, some _ => none

/-- Reads the letters of a word after its dash. A value takes all that is left. -/
def readLetters? (switches : List Switch) : List Char → Option Reading
  | [] => some .nothing
  | c :: rest => do
    match ← switches.find? (·.letter = c), rest with
    | .verbose, _ => readLetters? switches rest
    | .inquiry i, _ => some (.inquiry i)
    | .parameter p, [] => some (.awaited p)
    | .parameter p, '=' :: value => some (.value p (String.ofList value))
    | .parameter p, value => some (.value p (String.ofList value))

/-- Whether a word begins with a dash and is more than one. -/
def isOption (word : String) : Bool := 1 < word.length && word.startsWith "-"

def readOption? (switches : List Switch) (word : String) : Option Reading :=
  match word.toList with
  | '-' :: '-' :: name => readName? switches name
  | _ :: letters => readLetters? switches letters
  | [] => none

/-- How the options at one place end. -/
inductive Ending
  | inquiry (i : Inquiry)
  /-- At a word that is no option, with the words after it. -/
  | word (given : Given) (word : String) (rest : List String)
  | finished (given : Given)

/-- Reads options. Two dashes alone end them, and nothing may follow those. -/
def readOptions? (switches : List Switch) (given : Given) : List String → Option Ending
  | [] => some (.finished given)
  | word :: rest => do
    if word = "--" then
      if rest.isEmpty then some (.finished given) else none
    else if !isOption word then some (.word given word rest)
    else
      match ← readOption? switches word with
      | .nothing => readOptions? switches given rest
      | .inquiry i => some (.inquiry i)
      | .value p text => readOptions? switches (← give? given p text) rest
      | .awaited p =>
        match rest with
        | [] => none
        | value :: rest =>
          -- a value of its own does not begin with a dash
          if isOption value then none
          else readOptions? switches (← give? given p value) rest

/-- A whole command line. -/
inductive Request
  | inquiry (i : Inquiry)
  | command (config : Option String) (c : Command)
deriving DecidableEq, Repr

def Given.all (given : Given) (p : Parameter) : List String :=
  given.filterMap fun (q, value) => if q = p then some value else none

/-- The command of a verb, if nothing it needs is missing. -/
def Verb.command? (v : Verb) (given : Given) : Option Command := do
  let first (p : Parameter) : Option String := (Given.all given p).head?
  match v with
  | inspect => return .inspect (← first .model)
  | transform => return .transform (← first .model) (← first .output) (Given.all given .pass)
  | convert => return .convert (← first .model) (← first .output)
  | compute => return .compute (← first .model) (Given.all given .input)
  | demo => return .demo (← first .output)

/-- Reads what follows a verb. Settings named here count more than those named before. -/
def Verb.read? (v : Verb) (before : Given) (words : List String) : Option Request := do
  match ← readOptions? v.switches [] words with
  | .inquiry i => return .inquiry i
  | .word _ _ _ => none
  | .finished given =>
    let config := (Given.all given .config).head? <|> (Given.all before .config).head?
    return .command config (← v.command? given)

/-- What may follow the word that asks for help: the name of a command. -/
def isHelpTopic : List String → Bool
  | [] => true
  | [topic] => topic = "help" || (Verb.ofName? topic).isSome
  | _ => false

/-- Reads a command line. There is no request if the line is not acceptable. -/
def Request.read? (words : List String) : Option Request := do
  match ← readOptions? (.inquiry .version :: commonSwitches) [] words with
  | .inquiry i => return .inquiry i
  | .finished _ => none
  | .word before word rest =>
    if word = "help" then
      if isHelpTopic rest then return .inquiry .help else none
    else (← Verb.ofName? word).read? before rest

end FlowGraph.Tool
