import DotGraph.Ident
import DotGraph.Keyed

/-!
# Attribute stores

The ordered attributes of nodes, edges, defaults and subgraphs. A store holds each name once;
setting a name that is there keeps its place. Equality is sensitive to the order.
-/

namespace DotGraph

/-- The value of an attribute; `implicit` is a name without a value, as in `[decorate]`. -/
inductive AttrValue
  | implicit
  | text (id : Ident)
deriving DecidableEq

namespace AttrValue

def ident? : AttrValue → Option Ident
  | implicit => none
  | text id => some id

end AttrValue

structure Attributes where
  entries : List (Ident × AttrValue)
  nodup_keys : (Keyed.keys entries).Nodup
deriving DecidableEq

namespace Attributes

def empty : Attributes := ⟨[], List.nodup_nil⟩

instance : Inhabited Attributes := ⟨empty⟩

@[ext] theorem ext {a b : Attributes} (h : a.entries = b.entries) : a = b := by
  cases a; cases b; cases h; rfl

def names (a : Attributes) : List Ident := Keyed.keys a.entries

def size (a : Attributes) : Nat := a.entries.length

def isEmpty (a : Attributes) : Bool := a.entries.isEmpty

/-- Set an attribute in its place, or append it. -/
def set (a : Attributes) (name : Ident) (value : AttrValue) : Attributes :=
  ⟨Keyed.put name value a.entries, Keyed.nodup_keys_put name value a.entries a.nodup_keys⟩

def get? (a : Attributes) (name : Ident) : Option AttrValue := Keyed.find? name a.entries

/-- The identifier that an attribute with a value holds. -/
def ident? (a : Attributes) (name : Ident) : Option Ident := (a.get? name).bind AttrValue.ident?

def contains (a : Attributes) (name : Ident) : Bool := (a.get? name).isSome

/-- Drop an attribute and keep the order of the others. -/
def erase (a : Attributes) (name : Ident) : Attributes :=
  ⟨Keyed.erase name a.entries, Keyed.nodup_keys_erase name a.entries a.nodup_keys⟩

/-- Set every attribute of `b`, in its order. -/
def merge (a b : Attributes) : Attributes := b.entries.foldl (fun acc e => acc.set e.1 e.2) a

/-- Set the given pairs one after the other. -/
def ofList (pairs : List (Ident × AttrValue)) : Attributes :=
  pairs.foldl (fun acc e => acc.set e.1 e.2) empty

/-- The store of a bracketed list: a name that is repeated stands where it stands last, with its
last value. -/
def ofItems (items : List (Ident × AttrValue)) : Attributes :=
  items.foldl (fun acc e => (acc.erase e.1).set e.1 e.2) empty

/-- The attribute that holds a comma-separated list of style tokens. -/
def styleName : Ident := ⟨"style"⟩

def style (a : Attributes) : Option String := (a.ident? styleName).map Ident.unquoted

/-- The tokens of a style text: its parts between commas, trimmed, the empty ones left out. -/
def styleTokens (text : String) : List String :=
  (((Text.split ',' text.toList).map Text.trim).filter (!·.isEmpty)).map String.ofList

/-- Append a token to the style list, unless it is empty or there already. -/
def addStyle (a : Attributes) (token : String) : Attributes :=
  let token := String.ofList (Text.trim token.toList)
  let tokens := (a.style.map styleTokens).getD []
  if token.isEmpty || tokens.contains token then a
  else a.set styleName (.text ⟨String.intercalate "," (tokens ++ [token])⟩)

end Attributes

end DotGraph
