import Calculator.CommandLine.Integer
import Calculator.Dialect

/-! # Command-line arguments

        calculator [-h] [--dialect NAME] [--precision DIGITS] [--no-prompt] [-v] [FILE]

    Long options may be cut short as long as one option is left, and take their
    value from the next argument or after an equals sign. Short options may be
    joined. `--` ends the options. An argument that looks like a negative number
    or holds a space is an operand unless it begins like an option.

    The argument parser differs between its releases where something is joined to a
    short option that is none, and where `--` stands behind an equals sign. It is
    described as of release 3.11.2: `-v=v` is `-vv`, `-hx` is refused, and
    `--precision=--` leaves the precision without a value. In 3.11.10 and 3.12.3
    `-v=v` and `--precision=--` are refused, and `-hx` is a request for help.

    Arguments are first classified one by one and then interpreted from left to
    right, so a request for help is granted if nothing before it is wrong, and
    a file that cannot be read is found where it is named.
-/

namespace Calculator.CommandLine

/-- An option without a value. -/
inductive Switch where
  | help
  | noPrompt
  | verbose
deriving DecidableEq, Repr

/-- An option with a value. -/
inductive Parameter where
  | dialect
  | precision
deriving DecidableEq, Repr

/-- The long options. -/
def longOptions : List (String × (Switch ⊕ Parameter)) :=
  [("--help", .inl .help), ("--dialect", .inr .dialect), ("--precision", .inr .precision),
   ("--no-prompt", .inl .noPrompt), ("--verbose", .inl .verbose)]

/-- The switch of a short option. -/
def shortSwitch? : Char → Option Switch
  | 'h' => some .help
  | 'v' => some .verbose
  | _ => none

/-- What an argument is by its form. -/
inductive Argument where
  | operand (text : String)
  /-- The mark that ends the options. -/
  | separator
  | switches (on : List Switch)
  /-- A parameter, with its value if that is in the same argument. -/
  | parameter (p : Parameter) (value : Option String)
  /-- A parameter that is left without a value, by `--` behind its equals sign. So in
      release 3.11.2; in 3.11.10 and 3.12.3 `--` is a value there like any other. -/
  | bare (p : Parameter)
  /-- A switch with a value, or with something joined to it that is no switch. -/
  | overfull
  /-- Something like an option that is none. -/
  | unknown
deriving DecidableEq, Repr

/-- What stops the interpretation of the arguments. -/
inductive Stop where
  /-- Help is asked for. -/
  | help
  | refused
  /-- The arguments are in order, but the dialect is left without a name. -/
  | dialectMissing
deriving DecidableEq, Repr

/-- What the arguments ask for. -/
structure Options where
  /-- The file to read; standard input if there is none. -/
  file : Option String := none
  dialect : String := "full"
  /-- The number of significant digits of a result; none if left without a value. -/
  precision : Option Int := some 19
  showPrompt : Bool := true
  verbose : Bool := false
deriving DecidableEq, Repr

/-! ## Classification -/

/-- Whether an argument reads as a negative number: digits, or a point with
    digits after it, behind a minus sign. One line feed at the end is let
    through. -/
def looksNegative (cs : List Char) : Bool :=
  let body := if cs.getLast? = some '\n' then cs.dropLast else cs
  match body with
  | '-' :: rest =>
    match rest.dropWhile Text.isDecimalDigit with
    | [] => !rest.isEmpty
    | '.' :: places => !places.isEmpty && places.all Text.isDecimalDigit
    | _ => false
  | _ => false

/-- An argument that begins with a minus sign but like no option. -/
def classifyOther (cs : List Char) : Argument :=
  if looksNegative cs || cs.contains ' ' then .operand (String.ofList cs) else .unknown

/-- A short option with what stands behind it in the same argument: short options,
    in release 3.11.2 the first of them perhaps behind an equals sign. One character
    that is no short option spoils the whole argument there. Releases 3.11.10 and
    3.12.3 refuse an equals sign, and they take the short options in front of such a
    character, so that help is granted. -/
def classifyJoined (first : Switch) (rest : List Char) : Argument :=
  let joined :=
    match rest with
    | '=' :: c :: more => c :: more
    | rest => rest
  match joined.mapM shortSwitch? with
  | some others => .switches (first :: others)
  | none => .overfull

/-- An argument that begins with two minus signs. The options that it may be
    cut short from are all that begin with the part before the equals sign. That `--`
    is no value behind it holds of release 3.11.2, and no longer of 3.11.10 and
    3.12.3. -/
def classifyLong (cs : List Char) : Except Stop Argument :=
  let key := cs.takeWhile (· ≠ '=')
  let value := (cs.drop key.length).tail?.map String.ofList
  match longOptions.filter (key.isPrefixOf ·.1.toList), value with
  | [], _ => .ok (classifyOther cs)
  | [(_, .inl o)], none => .ok (.switches [o])
  | [(_, .inl _)], some _ => .ok .overfull
  | [(_, .inr p)], value => .ok (if value = some "--" then .bare p else .parameter p value)
  | _ :: _ :: _, _ => .error .refused

/-- Classifies one argument in front of the separator. -/
def classify (s : String) : Except Stop Argument :=
  match s.toList with
  | '-' :: '-' :: rest => classifyLong ('-' :: '-' :: rest)
  | '-' :: c :: rest =>
    match shortSwitch? c with
    | some o => .ok (classifyJoined o rest)
    | none => .ok (classifyOther ('-' :: c :: rest))
  | _ => .ok (.operand s)

/-- Classifies all arguments; those after the separator are operands. -/
def classifyAll : List String → Except Stop (List Argument)
  | [] => .ok []
  | s :: rest =>
    if s = "--" then .ok (.separator :: rest.map .operand)
    else do
      let first ← classify s
      let others ← classifyAll rest
      pure (first :: others)

/-! ## Interpretation -/

/-- The options so far. -/
structure Progress where
  options : Options := {}
  /-- Whether the place of the file has been filled. -/
  fileSeen : Bool := false
  /-- Whether the dialect has been left without a name. -/
  dialectMissing : Bool := false
  /-- Whether something could not be placed. -/
  leftOver : Bool := false
deriving Repr

/-- Turns a switch on. -/
def Progress.switch (p : Progress) : Switch → Except Stop Progress
  | .help => .error .help
  | .noPrompt => .ok { p with options.showPrompt := false }
  | .verbose => .ok { p with options.verbose := true }

/-- Gives a parameter its value. -/
def Progress.set (p : Progress) (name : Parameter) (value : String) : Except Stop Progress :=
  match name with
  | .dialect =>
    if (Dialect.named.lookup value).isSome then
      .ok { p with options.dialect := value, dialectMissing := false }
    else .error .refused
  | .precision =>
    match integer? value with
    | some n => .ok { p with options.precision := some n }
    | none => .error .refused

/-- Leaves a parameter without a value. -/
def Progress.clear (p : Progress) : Parameter → Progress
  | .dialect => { p with dialectMissing := true }
  | .precision => { p with options.precision := none }

/-- Takes the file to read; a minus sign names standard input. -/
def Progress.openFile (readable : String → Bool) (p : Progress) (name : String) :
    Except Stop Progress :=
  if name = "-" then .ok { p with fileSeen := true }
  else if readable name then .ok { p with fileSeen := true, options.file := some name }
  else .error .refused

/-- What the arguments ask for, once all of them are interpreted. -/
def Progress.finish (p : Progress) : Except Stop Options :=
  if p.leftOver then .error .refused
  else if p.dialectMissing then .error .dialectMissing
  else .ok p.options

/-- Interprets the classified arguments. The separator may stand on either side of
    the file. -/
def interpret (readable : String → Bool) (p : Progress) : List Argument → Except Stop Options
  | [] => p.finish
  | .operand s :: rest =>
    if p.fileSeen then interpret readable { p with leftOver := true } rest
    else
      match p.openFile readable s with
      | .ok p =>
        -- a separator right behind the file belongs to it
        match rest with
        | .separator :: rest => interpret readable p rest
        | rest => interpret readable p rest
      | .error stop => .error stop
  | .separator :: rest =>
    if p.fileSeen then interpret readable { p with leftOver := true } rest
    else
      match rest with
      -- and so does one right in front of it
      | .operand s :: rest =>
        match p.openFile readable s with
        | .ok p => interpret readable p rest
        | .error stop => .error stop
      | rest => interpret readable { p with fileSeen := true } rest
  | .switches on :: rest =>
    match on.foldlM Progress.switch p with
    | .ok p => interpret readable p rest
    | .error stop => .error stop
  | .parameter name (some value) :: rest =>
    match p.set name value with
    | .ok p => interpret readable p rest
    | .error stop => .error stop
  | .parameter name none :: .operand value :: rest =>
    match p.set name value with
    | .ok p => interpret readable p rest
    | .error stop => .error stop
  | .parameter _ none :: _ => .error .refused
  | .bare name :: rest => interpret readable (p.clear name) rest
  | .overfull :: _ => .error .refused
  | .unknown :: rest => interpret readable { p with leftOver := true } rest

/-- What the arguments ask for, given which files can be read. -/
def parse (readable : String → Bool) (args : List String) : Except Stop Options := do
  interpret readable {} (← classifyAll args)

end Calculator.CommandLine
