import Calculator.CommandLine.Arguments
import Calculator.Console

/-! # Conversations asked for on the command line

    The options settle the dialect, the look of the conversation and whether
    its trace is shown. The trace begins with the predefined constants.
-/

namespace Calculator.CommandLine

/-- The look of the conversation. Without a precision no result can be printed, as
    with one below zero. -/
def Options.settings (o : Options) : Console.Settings where
  precision := o.precision.getD (-1)
  showPrompt := o.showPrompt

/-- The dialect that is asked for. -/
def Options.language (o : Options) : Dialect := (Dialect.named.lookup o.dialect).getD .full

/-- The session at the start of a text. -/
def Options.session (o : Options) (text : List Char) : Session :=
  .ofText o.language .initial text

/-- The records from before the first prompt. -/
def Options.opening (o : Options) : List Console.Notice :=
  Bindings.predefinedChanges.map (.record ∘ .changed) ++
    [.record (.started Bindings.initial.entries.length o.dialect)]

/-- The whole conversation about a text with any kind of line breaks. -/
def converse (o : Options) (text : List Char) : Console.Transcript :=
  (Console.converse o.settings (o.session (Text.normalizeBreaks text))).after "" o.opening

end Calculator.CommandLine
