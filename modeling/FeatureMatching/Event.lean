import FeatureMatching.Geometry.TwoView
import FeatureMatching.Similarity.Search

/-!
# What a matcher reports

Matching reports what it did, one event for every search and one for every call that got past the
checks. An event is the numbers it quotes; level and wording are made here and nowhere else.
-/

set_option autoImplicit false

namespace FeatureMatching

/-- How much detail a reader has to ask for to see an event. -/
inductive Level where
  /-- The outcome of a call. -/
  | debug
  /-- A step within a call. -/
  | trace
deriving DecidableEq, Repr

/-- The written name of a level. -/
def Level.name : Level → String
  | .debug => "DEBUG"
  | .trace => "TRACE"

/-- Something that a matcher did. -/
inductive Event where
  /-- A matrix was searched. -/
  | searched (rows cols chosen kept : Nat) (crossCheck : Bool)
  /-- Two images were matched by their descriptors alone. -/
  | matched (descriptors1 descriptors2 found : Nat)
  /-- The configuration has no model to be guided by. -/
  | skipped (configuration : Configuration)
  /-- Two images were matched under a geometry. -/
  | guided (configuration : Configuration) (descriptors1 descriptors2 found : Nat)
deriving DecidableEq, Repr

/-- The event of a search. -/
def Search.event (s : Search) : Event :=
  .searched s.rows s.cols s.chosen s.found.length s.crossCheck

namespace Event

/-- The level of an event. -/
def level : Event → Level
  | .searched .. => .trace
  | _ => .debug

/-- An event in words. -/
def text : Event → String
  | .searched rows cols chosen kept crossCheck =>
    s!"matched {rows}x{cols} features: {chosen} one-way, {kept} kept (cross_check: {crossCheck})"
  | .matched descriptors1 descriptors2 found =>
    s!"matched {descriptors1} against {descriptors2} descriptors: {found} matches"
  | .skipped configuration =>
    "skipping guided matching for configuration " ++ configuration.name
  | .guided configuration descriptors1 descriptors2 found =>
    "guided matching (" ++ configuration.name ++
      s!") of {descriptors1} against {descriptors2} descriptors: {found} matches"

end Event

end FeatureMatching
