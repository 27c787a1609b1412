/-
  HackPlatform.Journal
  ────────────────────────────────
  **THE JOURNAL: what a run tells about itself.**

  A record has a level, the name of the part that speaks, and a message.  The
  journal of a run is kept apart from its result: it is computed from the same
  steps, so no definition that a theorem is about has to carry it along.

      Level.admits   which records a chosen verbosity shows
      narrate        the records of a fold that may stop at a fault
-/

namespace HackPlatform

/-! ## §1. Levels and records. -/

/-- How grave a record is. -/
inductive Level where
  /-- The run fails. -/
  | error
  /-- The input looks wrong but is accepted. -/
  | warn
  /-- What the run achieved. -/
  | info
  /-- How it went about it. -/
  | debug
  deriving DecidableEq, Repr

namespace Level

/-- The name a record is shown under. -/
def name : Level → String
  | error => "ERROR"
  | warn => "WARN"
  | info => "INFO"
  | debug => "DEBUG"

/-- Gravest first. -/
def rank : Level → Nat
  | error => 0
  | warn => 1
  | info => 2
  | debug => 3

/-- The most talkative level shown when verbosity was asked for `n` times. -/
def ofVerbosity : Nat → Level
  | 0 => error
  | 1 => warn
  | 2 => info
  | _ => debug

/-- A record of level `l` is shown up to level `limit`. -/
def admits (limit l : Level) : Bool := l.rank ≤ limit.rank

end Level

/-- One entry of a journal. -/
structure Record where
  /-- How grave it is. -/
  level : Level
  /-- The part of the tool chain that speaks. -/
  target : String
  /-- What it says. -/
  message : String
  deriving DecidableEq, Repr

/-! ## §2. The journal of a fold. -/

/-- The records told by the steps of a fold, each from the state it starts in, up to
and including the first step that fails. -/
def narrate {σ α ε : Type} (step : σ → α → Except ε σ) (tell : σ → α → List Record)
    (s : σ) (xs : List α) : List Record :=
  go [] s xs
where
  /-- `told` holds the records so far, last first. -/
  go (told : List Record) (s : σ) : List α → List Record
    | [] => told.reverse
    | x :: xs =>
        let told := (tell s x).reverse ++ told
        match step s x with
        | .error _ => told.reverse
        | .ok s' => go told s' xs

end HackPlatform
