/-
  All rules of an outline.

  Every top node of an outline is the header of a rule. The rules are loaded in the order of
  their headers, up to the first that cannot be loaded; an outline is brought into canonical
  form by writing every header as it is with its rule saved below it.
-/
import Proviso.Outline.Layout
import Proviso.Rule.Loader
import Proviso.Rule.Saving

namespace Proviso

open Outline (Draft Node Position Report)

/-- The rules loaded so far, what has happened, and the fault that stopped it. -/
structure Collection where
  rules : List Rule
  events : List Event
  fault : Option Numeral.Fault

namespace Collection

/-- The rules below headers with the given lines above them. -/
def ofNodes (above : List Outline.Line) : List Node → Collection
  | [] => ⟨[], [], none⟩
  | n :: ns =>
    let first := Rule.ofHeader ⟨above, n⟩
    match first.fault with
    | some fault => ⟨[], first.events, some fault⟩
    | none =>
      let rest := ofNodes above ns
      ⟨first.rule :: rest.rules, first.events ++ rest.events, rest.fault⟩

/-- The rules of an outline. -/
def ofOutline (o : Outline) : Collection := ofNodes [.outermost] o.nodes

/-- The reports made while the rules were loaded. -/
def reports (c : Collection) : List Report := c.events.filterMap Event.report?

end Collection

/-- The state of writing an outline in canonical form. -/
structure Formatting where
  draft : Draft
  events : List Event
  fault : Option Draft.Fault

namespace Formatting

/-- Writes a header, loads the rule below it, and saves the rule below the written header. -/
def header (p : Position) (d : Draft) : Formatting :=
  match d.write (p.node.line.tokens.map .token) with
  | .error fault => ⟨d, [], some fault⟩
  | .ok d =>
    let loading := Rule.ofHeader p
    match loading.fault with
    | some fault => ⟨d.openBlock, loading.events, some (.numeral fault)⟩
    | none =>
      let saving :=
        (loading.rule.save d.openBlock).andThen fun d => Saving.attempt d Draft.closeBlock
      ⟨saving.draft, loading.events, saving.fault⟩

/-- Writes headers with their rules one after another, up to the first fault. -/
def ofNodes (above : List Outline.Line) : List Node → Draft → Formatting
  | [], d => ⟨d, [], none⟩
  | n :: ns, d =>
    let first := header ⟨above, n⟩ d
    match first.fault with
    | some _ => first
    | none =>
      let rest := ofNodes above ns first.draft
      ⟨rest.draft, first.events ++ rest.events, rest.fault⟩

/-- Writes an outline in canonical form. -/
def ofOutline (o : Outline) : Formatting := ofNodes [.outermost] o.nodes .empty

end Formatting

end Proviso
