import Mathlib.Data.List.Nodup
import NetdataPlugins.Netdata
import NetdataPlugins.Runs

/-!
# What a strict collector accepts

A DIMENSION line belongs to the chart of the last CHART line, and a SET line to
the chart of the open BEGIN line. A strict collector takes a dimension once for
each chart, opens a chart only if it was defined, and takes a value only for a
dimension that was declared in the open chart. So in accepted output a dimension
is declared by one line, before it is used.
-/
namespace NetdataPlugins.DeclaredOnce
open MemoryBlock Netdata Runs

/-- `dimensions` has one entry for each DIMENSION line, with its chart. -/
structure Collector where
  charts : List Bytes
  dimensions : List (Bytes × Bytes)
  defining : Option Bytes
  filling : Option Bytes
  deriving DecidableEq, Repr

namespace Collector

def empty : Collector := ⟨[], [], none, none⟩

def accept (c : Collector) : Command → Option Collector
  | .chart id _ _ _ _ _ _ => some { c with charts := id :: c.charts, defining := some id }
  | .dimension id _ _ _ _ _ => do
      let chart ← c.defining
      if (chart, id) ∈ c.dimensions then none
      else some { c with dimensions := c.dimensions ++ [(chart, id)] }
  | .begin id _ =>
      if id ∈ c.charts ∧ c.filling = none then some { c with filling := some id } else none
  | .set name _ => do
      let chart ← c.filling
      if (chart, name) ∈ c.dimensions then some c else none
  | .close => if c.filling.isSome then some { c with filling := none } else none

/-- The collector after some output, if it takes all of it. -/
def listen (c : Collector) (out : List Command) : Option Collector := run accept c out

theorem listen_cons (c : Collector) (cmd : Command) (out : List Command) :
    c.listen (cmd :: out) = (c.accept cmd).bind fun d => d.listen out := rfl

theorem listen_append {c d : Collector} {a : List Command} (h : c.listen a = some d)
    (b : List Command) : c.listen (a ++ b) = d.listen b := by
  rw [listen, run_append, show run accept c a = some d from h]
  rfl

theorem accept_dimension {c : Collector} {chart id : Bytes} (hchart : c.defining = some chart)
    (hnew : (chart, id) ∉ c.dimensions) (name : Bytes) (alg : Algorithm) (multiplier divisor : ℤ)
    (vis : Visibility) :
    c.accept (.dimension id name alg multiplier divisor vis) =
      some { c with dimensions := c.dimensions ++ [(chart, id)] } := by
  simp [accept, hchart, hnew]

/-- A line adds at most one dimension, and a new one. -/
theorem nodup_accept {c d : Collector} (hc : c.dimensions.Nodup) {cmd : Command}
    (h : c.accept cmd = some d) : d.dimensions.Nodup := by
  cases cmd with
  | dimension id name alg multiplier divisor vis =>
      simp only [accept, Option.bind_eq_bind, Option.bind_eq_some_iff,
        Option.ite_none_left_eq_some, Option.some_inj] at h
      obtain ⟨chart, -, hnew, rfl⟩ := h
      rw [List.nodup_append]
      refine ⟨hc, List.nodup_singleton _, fun a ha b hb hab => hnew ?_⟩
      rwa [← List.mem_singleton.mp hb, ← hab]
  | set name value =>
      simp only [accept, Option.bind_eq_bind, Option.bind_eq_some_iff,
        Option.ite_none_right_eq_some, Option.some_inj] at h
      obtain ⟨chart, -, -, rfl⟩ := h
      exact hc
  | chart => cases h; exact hc
  | begin id time =>
      simp only [accept, Option.ite_none_right_eq_some, Option.some_inj] at h
      obtain ⟨-, rfl⟩ := h
      exact hc
  | close =>
      simp only [accept, Option.ite_none_right_eq_some, Option.some_inj] at h
      obtain ⟨-, rfl⟩ := h
      exact hc

/-- No dimension is declared twice. -/
theorem nodup_dimensions {c d : Collector} {out : List Command} (hc : c.dimensions.Nodup)
    (h : c.listen out = some d) : d.dimensions.Nodup := by
  induction out generalizing c with
  | nil =>
      cases h
      exact hc
  | cons cmd out ih =>
      rw [listen_cons, Option.bind_eq_some_iff] at h
      obtain ⟨e, he, h⟩ := h
      exact ih (nodup_accept hc he) h

/-! ### Headers and blocks -/

/-- The collector after one chart and its dimensions. -/
def define (c : Collector) (chart : Bytes) (ids : List Bytes) : Collector :=
  { c with
    charts := chart :: c.charts
    dimensions := c.dimensions ++ ids.map fun id => (chart, id)
    defining := some chart }

theorem listen_dimensions {α : Type*} {f : α → Command} {id : α → Bytes}
    (hf : ∀ x, ∃ name alg m d vis, f x = .dimension (id x) name alg m d vis)
    {c : Collector} {chart : Bytes} (hchart : c.defining = some chart) {xs : List α}
    (hnodup : (xs.map id).Nodup) (hnew : ∀ x ∈ xs, (chart, id x) ∉ c.dimensions) :
    c.listen (xs.map f) =
      some { c with dimensions := c.dimensions ++ (xs.map id).map fun i => (chart, i) } := by
  induction xs generalizing c with
  | nil => simp [listen, run]
  | cons x xs ih =>
      obtain ⟨name, alg, m, d, vis, hx⟩ := hf x
      obtain ⟨hfirst, hrest⟩ := List.nodup_cons.mp hnodup
      have hothers : ∀ y ∈ xs, (chart, id y) ∉ c.dimensions ++ [(chart, id x)] := by
        intro y hy hmem
        rcases List.mem_append.mp hmem with hmem | hmem
        · exact hnew y (by simp [hy]) hmem
        · have hxy : id y = id x := (Prod.mk.inj (List.mem_singleton.mp hmem)).2
          exact hfirst (hxy ▸ List.mem_map_of_mem hy)
      have htail := ih (c := { c with dimensions := c.dimensions ++ [(chart, id x)] }) hchart
        hrest hothers
      rw [List.map_cons, listen_cons, hx, accept_dimension hchart (hnew x (by simp)),
        Option.bind_some, htail]
      simp

/-- A CHART line and its dimensions. -/
theorem listen_chart {α : Type*} {f : α → Command} {id : α → Bytes}
    (hf : ∀ x, ∃ name alg m d vis, f x = .dimension (id x) name alg m d vis)
    {c : Collector} {chart : Bytes} {cmd : Command}
    (hcmd : c.accept cmd = some { c with charts := chart :: c.charts, defining := some chart })
    {xs : List α} (hnodup : (xs.map id).Nodup) (hnew : ∀ x ∈ xs, (chart, id x) ∉ c.dimensions) :
    c.listen (cmd :: xs.map f) = some (c.define chart (xs.map id)) := by
  rw [listen_cons, hcmd, Option.bind_some]
  exact listen_dimensions hf rfl hnodup hnew

/-- A chart with one new dimension. -/
theorem listen_newdim {c : Collector} {chart id : Bytes} {cmd : Command}
    (hcmd : c.accept cmd = some { c with charts := chart :: c.charts, defining := some chart })
    (hnew : (chart, id) ∉ c.dimensions) (name : Bytes) (alg : Algorithm) (multiplier divisor : ℤ)
    (vis : Visibility) :
    c.listen [cmd, .dimension id name alg multiplier divisor vis] =
      some (c.define chart [id]) := by
  rw [listen_cons, hcmd, Option.bind_some, listen_cons,
    accept_dimension (c := { c with charts := chart :: c.charts, defining := some chart }) rfl hnew]
  rfl

theorem listen_sets {c : Collector} {id : Bytes} (hfilling : c.filling = some id)
    {sets : List (Bytes × ℤ)} (hsets : ∀ s ∈ sets, (id, s.1) ∈ c.dimensions) :
    c.listen (sets.map fun s => ndSet s.1 s.2) = some c := by
  induction sets with
  | nil => rfl
  | cons s sets ih =>
      have hset : c.accept (ndSet s.1 s.2) = some c := by
        simp [accept, ndSet, hfilling, hsets s (by simp)]
      rw [List.map_cons, listen_cons, hset, Option.bind_some, ih fun t ht => hsets t (by simp [ht])]

/-- A block is accepted if its chart is defined and its dimensions declared,
and it changes nothing. -/
theorem listen_block {c : Collector} {id : Bytes} (hchart : id ∈ c.charts)
    (hfilling : c.filling = none) (time : Option ℕ) {sets : List (Bytes × ℤ)}
    (hsets : ∀ s ∈ sets, (id, s.1) ∈ c.dimensions) :
    c.listen (block (.begin id time) sets) = some c := by
  have hopen : c.accept (.begin id time) = some { c with filling := some id } := by
    simp [accept, hchart, hfilling]
  have hclose : Collector.accept { c with filling := some id } ndEnd = some c := by
    obtain ⟨charts, dimensions, defining, filling⟩ := c
    simp only at hfilling
    simp [accept, ndEnd, hfilling]
  have hinside := listen_sets (c := { c with filling := some id }) rfl hsets
  rw [block, List.cons_append, listen_cons, hopen, Option.bind_some, listen_append hinside,
    listen_cons, hclose]
  rfl

end Collector
end NetdataPlugins.DeclaredOnce
