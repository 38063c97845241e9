import AgentOS.GraphTools.Subgraph
import AgentOS.Lib.FirstWalks
import AgentOS.Python.Values

/-!
# The code graph

What the tools of `mcp/code_graph_tools.py` read of `graphify-out/graph.json`, after `_normalize_code_graph` of
`mcp/graph_io.py`, and the walks from a symbol along its edges.
-/

namespace AgentOS.GraphTools

open Py

/-- What is read of a node. -/
structure CodeNode where
  id : Str
  type : Option Str
  fileType : Option Str
  deriving DecidableEq

/-- What is read of a link. -/
structure Link where
  source : Str
  target : Str
  relationship : Option Str
  relation : Option Str

/-- The object in the file; `none` is a key that is absent. -/
structure CodeGraph where
  nodes : List CodeNode
  edges : Option (List Link)
  links : Option (List Link)

/-- `_normalize_code_graph`. -/
def normalizeCodeGraph (graph : CodeGraph) : CodeGraph where
  nodes := graph.nodes.map fun node => { node with type := node.type.or node.fileType }
  edges := (graph.edges.or graph.links).map fun links =>
    links.map fun edge => { edge with relationship := edge.relationship.or edge.relation }
  links := graph.links

/-- There is nothing left to normalize. -/
theorem normalizeCodeGraph_idem (graph : CodeGraph) :
    normalizeCodeGraph (normalizeCodeGraph graph) = normalizeCodeGraph graph := by
  obtain ⟨nodes, edges, links⟩ := graph
  cases edges with
  | some edges => simp [normalizeCodeGraph, Function.comp_def, Option.or_assoc]
  | none =>
    cases links with
    | some links => simp [normalizeCodeGraph, Function.comp_def, Option.or_assoc]
    | none => simp [normalizeCodeGraph, Function.comp_def, Option.or_assoc]

/-- `graph_data.get("edges", [])`, each with `edge.get("relationship", "")`. -/
def CodeGraph.edgeList (graph : CodeGraph) : List (Edge Str Str) :=
  (graph.edges.getD []).map fun edge => ⟨edge.source, edge.target, edge.relationship.getD (lit "")⟩

/-- The loop that looks for the symbol. -/
def findSymbol (nodes : List CodeNode) (symbolName : Str) : Option CodeNode :=
  nodes.find? fun node => symbolName <:+: node.id

/-- The warning if there is none. -/
def symbolNotFound (symbolName : Str) : Str := lit "Symbol " ++ symbolName ++ lit " not found"

end AgentOS.GraphTools
