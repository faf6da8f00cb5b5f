import SemanticSql.Dialect
import SemanticSql.Model
import SemanticSql.Topic

/-!
The definitions that documents hold: models, views, topics, connections and settings.
-/
namespace SemanticSql

structure Connection where
  name : String
  dialect : Dialect
  deriving DecidableEq, Repr

structure Settings where
  defaultDialect : Option Dialect := none
  timezone : Option String := none
  weekStart : Option Weekday := none
  now : Option DateTime := none
  strictAggregates : Bool := false
  suppressWarnings : Bool := false
  deriving DecidableEq, Repr

structure Definitions where
  models : List Model := []
  views : List View := []
  topics : List Topic := []
  connections : List Connection := []
  settings : Option Settings := none
  deriving Repr

def Definitions.append (a b : Definitions) : Definitions where
  models := a.models ++ b.models
  views := a.views ++ b.views
  topics := a.topics ++ b.topics
  connections := a.connections ++ b.connections
  settings := b.settings <|> a.settings

end SemanticSql
