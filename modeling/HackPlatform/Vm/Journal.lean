/-
  HackPlatform.Vm.Journal
  ────────────────────────────────
  **WHAT LOWERING A FILE TELLS ABOUT ITSELF.**

  A file name that is no symbol is warned of before anything else; a file that
  was lowered reports its size.
-/
import HackPlatform.Journal
import HackPlatform.Vm.Lowered

namespace HackPlatform.Vm

/-- Told by lowering the lines of a file. -/
def lowerJournal (file : String) (options : Options) (lines : List SourceLine) : List Record :=
  let symbol := toSymbol file
  (if symbol = file then []
    else [⟨.warn, "hack::translator", s!"file name `{file}` is not a valid symbol, using `{symbol}` to scope statics and labels"⟩])
  ++ match lowerFile file options lines with
    | .error _ => []
    | .ok lowered =>
        let commands := lines.length
        let asm := lowered.lines.length
        let labels := lowered.labels
        [⟨.info, "hack::translator", s!"translated {commands} command(s) into {asm} assembly line(s) using {labels} generated label(s)"⟩]

end HackPlatform.Vm
