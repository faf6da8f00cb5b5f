import SemanticSql.JoinGraph.Path

/-! Chains of joins. A route of the table is a chain from the source of the search, so the path that the
search returns is one as well. Nothing here says that the chain is a cheapest one. -/
namespace SemanticSql

open List

inductive Leads (edges : List Join) : String → List Join → String → Prop where
  | here (view) : Leads edges view [] view
  | step {j rest target} (edge : j ∈ edges) (next : Leads edges j.target rest target) :
      Leads edges j.base (j :: rest) target

theorem leadsAppend {edges source path middle rest target} (first : Leads edges source path middle)
    (second : Leads edges middle rest target) : Leads edges source (path ++ rest) target := by
  induction first with
  | here => exact second
  | step edge next ih => exact .step edge (ih second)

theorem leadsExtend {edges source path j} (chain : Leads edges source path j.base) (edge : j ∈ edges) :
    Leads edges source (path ++ [j]) j.target :=
  leadsAppend chain (.step edge (.here j.target))

theorem leadsSplit {edges source path j rest target} (chain : Leads edges source (path ++ j :: rest) target) :
    j ∈ edges ∧ Leads edges source path j.base ∧ Leads edges j.target rest target := by
  induction path generalizing source with
  | nil =>
    cases chain with
    | step edge next => exact ⟨edge,.here j.base,next⟩
  | cons k path ih =>
    cases chain with
    | step edge next =>
      obtain ⟨edgeJ,first,last⟩ := ih next
      exact ⟨edgeJ,.step edge first,last⟩

theorem leadsMono {edges wider source path target} (chain : Leads edges source path target)
    (inside : ∀ j ∈ edges, j ∈ wider) : Leads wider source path target := by
  induction chain with
  | here view => exact .here view
  | step edge next ih => exact .step (inside _ edge) ih

theorem leadsEdges {edges source path target} (chain : Leads edges source path target) : ∀ j ∈ path, j ∈ edges := by
  induction chain with
  | here => simp
  | step edge next ih =>
    intro k mem
    rcases mem_cons.mp mem with rfl | rest
    · exact edge
    · exact ih k rest

theorem leadsEnd {edges source path target} (chain : Leads edges source path target) :
    target = source ∨ target ∈ path.map Join.target := by
  induction chain with
  | here => exact .inl rfl
  | step edge next ih =>
    right
    rcases ih with same | later
    · simp [same]
    · exact mem_cons_of_mem _ later

namespace Route

def Sound (edges : List Join) (source : String) (table : List Route) : Prop :=
  ∀ r ∈ table, Leads edges source r.joins r.target

theorem insertSource {r s : Route} {table} (mem : s ∈ insert r table) : s = r ∨ s ∈ table := by
  induction table with
  | nil => exact .inl (by simpa [insert] using mem)
  | cons t rest ih =>
    simp only [insert] at mem
    split at mem
    · rcases mem_cons.mp mem with same | later
      · split at same
        · exact .inl same
        · exact .inr (by simp [same])
      · exact .inr (mem_cons_of_mem t later)
    · rcases mem_cons.mp mem with same | later
      · exact .inr (by simp [same])
      · rcases ih later with same | old
        · exact .inl same
        · exact .inr (mem_cons_of_mem t old)

theorem insertAllSource {new table : List Route} {s : Route}
    (mem : s ∈ new.foldl (fun table r => insert r table) table) : s ∈ new ∨ s ∈ table := by
  induction new generalizing table with
  | nil => exact .inr mem
  | cons r rest ih =>
    rcases ih mem with later | old
    · exact .inl (mem_cons_of_mem r later)
    · rcases insertSource old with same | old
      · exact .inl (by simp [same])
      · exact .inr old

theorem roundSound {edges source table} (sound : Sound edges source table) :
    Sound edges source (round edges table) := by
  intro s mem
  rcases insertAllSource mem with new | old
  · obtain ⟨r,known,extended⟩ := mem_flatMap.mp new
    obtain ⟨j,leaving,rfl⟩ := mem_map.mp extended
    obtain ⟨edge,start⟩ := mem_filter.mp leaving
    have same : r.target = j.base := (beq_iff_eq.mp start).symm
    exact leadsExtend (same ▸ sound r known) edge
  · exact sound s old

theorem roundsSound {edges source} (n : Nat) {table} (sound : Sound edges source table) :
    Sound edges source (rounds edges n table) := by
  induction n generalizing table with
  | zero => exact sound
  | succ n ih =>
    simp only [rounds]
    split
    · exact sound
    · exact ih (roundSound sound)

end Route

namespace JoinGraph

theorem routesSound (g : JoinGraph) (source : String) : Route.Sound g.joins source (g.routes source) := by
  unfold routes
  split
  · apply Route.roundsSound
    intro r mem
    cases mem_singleton.mp mem
    exact .here source
  · intro r mem
    contradiction

theorem pathLeads {g : JoinGraph} {source target path} (found : g.path? source target = some path) :
    Leads g.joins source path target := by
  obtain ⟨r,first,rfl⟩ := Option.map_eq_some_iff.mp found
  have goal : r.target = target := by simpa using find?_some first
  exact goal ▸ routesSound g source r (mem_of_find?_eq_some first)

end JoinGraph
end SemanticSql
