import Edict.Parser.Expression

/-! # Reading by index

The same reading with an index into all tokens in place of the tokens to come.  A list of
expressions moves the index from one expression to the next, and a bracket is read as such a list
with an index of its own, from which the expression around it then goes on.  The token before the
index tells whether a `+` is a sign and whether a bracket has a tag; an expression looks back no
further than to where it starts.

Nothing in the way these functions call each other says that they end.  So each has a depth, the
calls and rounds that it may be away from an outcome; with too little depth there is `none`.
-/

namespace Edict.Parser

/-- The token before index `i` in the expression that starts at `start`. -/
def previous? (tokens : List Token) (start i : Nat) : Option Token :=
  if i = start then none else tokens[i - 1]?

mutual

/-- Reads expressions from `index` on until there is none.  Beside the outcome stands the index to
go on with. -/
def parseParametersAt (tokens : List Token) (depth index : Nat) :
    Option (Except ParseError (List Node) × Nat) :=
  match depth with
  | 0 => none
  | depth + 1 => do
    match ← parseExpressionAt tokens depth index with
    | (.error e, index) => return (.error e, index)
    | (.ok none, index) => return (.ok [], index)
    | (.ok (some node), index) =>
      let (nodes, index) ← parseParametersAt tokens depth index
      return (nodes.map (node :: ·), index)
termination_by structural depth

/-- Reads one expression and the comma behind it, unless there is a closing token or nothing at
`index`. -/
def parseExpressionAt (tokens : List Token) (depth index : Nat) :
    Option (Except ParseError (Option Node) × Nat) :=
  match depth with
  | 0 => none
  | depth + 1 =>
    if h : index < tokens.length then
      if tokens[index].kind.closesList then return (.ok none, index)
      else do
        let (node, index) ← readFrom tokens depth index index [] []
        return (node.map some, index)
    else return (.ok none, index)
termination_by structural depth

/-- Goes on at `i` in the expression that starts at `start`, where `nodes` are finished and
`pending` waits.  An error found before the end of the expression leaves the index at `start`. -/
def readFrom (tokens : List Token) (depth start i : Nat) (nodes : List Node)
    (pending : List Pending) : Option (Except ParseError Node × Nat) :=
  match depth with
  | 0 => none
  | depth + 1 => do
    let slot : Slot := ⟨nodes, pending, previous? tokens start i⟩
    if h : i < tokens.length then
      let t := tokens[i]
      if opensFrame t.kind then
        match ← readNested tokens depth (Frame.ofToken slot t) i with
        | .error e => return (.error e, start)
        | .ok (next, close) => readFrom tokens depth start (close + 1) next.nodes next.pending
      else if t.kind = .comma then return (slot.finish t.span, i + 1)
      else if t.kind.closesList then return (slot.finish t.span, i)
      else
        match slot.read t with
        | .error e => return (.error e, start)
        | .ok next => readFrom tokens depth start (i + 1) next.nodes next.pending
    else return (slot.finish (endSpan tokens), tokens.length)
termination_by structural depth

/-- Reads the list or object in the bracket that opens at `i`, up to the index of the token that
closes it. -/
def readNested (tokens : List Token) (depth : Nat) (f : Frame) (i : Nat) :
    Option (Except ParseError (Slot × Nat)) :=
  match depth with
  | 0 => none
  | depth + 1 => do
    match ← parseParametersAt tokens depth (i + 1) with
    | (.error e, _) => return .error e
    | (.ok items, close) =>
      if h : close < tokens.length then
        if tokens[close].kind = f.closer then
          return .ok (f.resume items.reverse tokens[close], close)
        else return .error f.unclosed
      else return .error f.unclosed
termination_by structural depth

end

end Edict.Parser
