import SemanticSql.JoinGraph

/-!
Components of a join graph and their names. Components are numbered by decreasing size, and among equals by
their first view.
-/
namespace SemanticSql.JoinGraph

def classes (views : NameSet) (same : String → String → Bool) : List (List String) :=
  (views.map fun v => views.filter (same v)).zip views |>.filterMap fun (members, v) =>
    if members.head? = some v then some members else none

def classOrder (a b : List String) : Bool :=
  b.length < a.length || (a.length == b.length && a.headD "" ≤ b.headD "")

def classIndex? (classes : List (List String)) (view : String) : Option Nat :=
  (classes.mergeSort classOrder).findIdx? fun c => c.contains view

def weakClasses (g : JoinGraph) : List (List String) :=
  let both := g.joins ++ g.joins.map Join.inverted
  let reach := g.views.map fun v => (v, within both g.views.length [v])
  classes g.views fun a b => ((Dict.get? reach a).getD []).contains b

def mergeGroup? (g : JoinGraph) (view : String) : Option String :=
  (classIndex? g.weakClasses view).map fun i => "graph_" ++ toString i

end SemanticSql.JoinGraph
