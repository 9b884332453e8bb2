import KeyReader.Search.Query
import Mathlib.Data.List.DropRight

/-! The search of a page: the normalized characters of the page, the stream of its matches with their
previews and highlights, and the polls at which it may be cancelled. -/

namespace KeyReader.Search

open Utf8

def maxSearchResults : Nat := 20000

def cancelPollInterval : Nat := 64

def previewContextChars : Nat := 28

/-- Why a search ends before its result: a panic is an index out of bounds. -/
inductive Halt
  | cancelled
  | panicked
  deriving DecidableEq

/-- A computation that counts the polls of `should_cancel`. -/
abbrev Polled := StateT Nat (Except Halt)

/-- `should_cancel`, which is a function of the number of polls before. -/
def poll (shouldCancel : Nat → Bool) : Polled Unit := fun polls =>
  if shouldCancel polls then .error .cancelled else .ok ((), polls + 1)

/-- The loops poll at every so many turns, but not at the first. -/
def pollAt (shouldCancel : Nat → Bool) (index : Nat) : Polled Unit :=
  if index ≠ 0 ∧ index % cancelPollInterval = 0 then poll shouldCancel else pure ()

/-- A value that is there, or a panic. -/
def expect {α : Type} : Option α → Polled α
  | none => throw .panicked
  | some value => pure value

structure TextChar (B : Type) where
  value : Char
  bounds : Option B

/-- The arithmetic of the bounds, which is that of floating-point numbers. -/
structure Geometry (B : Type) where
  sanitizeBounds : B → Option B
  canMergeRuns : B → B → Bool
  unionBounds : B → B → B

structure SearchMatchId where
  page : Nat
  start : Nat
  finish : Nat

structure SearchMatch (B : Type) where
  id : SearchMatchId
  preview : List Char
  previewMatch : Nat × Nat
  highlightRuns : List B

structure SearchPageResults (B : Type) where
  page : Nat
  found : List (SearchMatch B)
  truncated : Bool

inductive SearchPageOutcome (B : Type)
  | complete (results : SearchPageResults B)
  | cancelled

section page

variable {B : Type} (toLowercase : Char → List Char) (geometry : Geometry B)
  (shouldCancel : Nat → Bool)

/-- One character of a page. -/
def appendNormalizedSource (normalized : List SourceAtom) (character : TextChar B) (index : Nat) :
    List SourceAtom :=
  appendNormalizedValue toLowercase SourceAtom.mk character.value index normalized

def normalizeFrom : List (TextChar B) → Nat → List SourceAtom → Polled (List SourceAtom)
  | [], _, normalized => pure normalized
  | character :: characters, index, normalized => do
    pollAt shouldCancel index
    normalizeFrom characters (index + 1)
      (appendNormalizedSource toLowercase normalized character index)

def normalizePage (characters : List (TextChar B)) : Polled (List SourceAtom) :=
  normalizeFrom toLowercase shouldCancel characters 0 []

/-- What the loop of `preview` has gathered. -/
structure PreviewState where
  result : List Char
  previousWhitespace : Bool
  matchStart : Option Nat
  matchEnd : Option Nat

def previewChar (start finish : Nat) (state : PreviewState) (value : Char) (index : Nat) :
    PreviewState :=
  let state := if index = start then { state with matchStart := some (byteLength state.result) }
    else state
  if isIgnored value then state
  else
    let state := if isWhitespace value then
        if state.previousWhitespace then state
        else { state with result := state.result ++ [' '], previousWhitespace := true }
      else { state with result := state.result ++ [value], previousWhitespace := false }
    if index = finish then { state with matchEnd := some (byteLength state.result) } else state

def previewFrom (start finish : Nat) : List (TextChar B) → Nat → PreviewState → PreviewState
  | [], _, state => state
  | character :: characters, index, state =>
    previewFrom start finish characters (index + 1)
      (previewChar start finish state character.value index)

/-- The ellipsis of a preview that is not the whole text. -/
def ellipsis : Char := Char.ofNat 0x2026

/-- The text around a match and the bytes of the match in it, unless the slice is out of bounds. -/
def preview (characters : List (TextChar B)) (start finish : Nat) :
    Option (List Char × Nat × Nat) :=
  let windowStart := start - previewContextChars
  let windowEnd := min (finish + previewContextChars + 1) characters.length
  if windowStart ≤ windowEnd then
    let state : PreviewState :=
      { result := if 0 < windowStart then [ellipsis] else [], previousWhitespace := true
        matchStart := none, matchEnd := none }
    let state := previewFrom start finish
      ((characters.take windowEnd).drop windowStart) windowStart state
    let result := state.result.rdropWhile (· = ' ')
    let result := if windowEnd < characters.length then result ++ [ellipsis] else result
    let matchStart := min (state.matchStart.getD 0) (byteLength result)
    let matchEnd := max matchStart (min (state.matchEnd.getD matchStart) (byteLength result))
    some (result, matchStart, matchEnd)
  else none

/-- One character of a highlight. -/
def mergeBounds (runs : List B) (character : TextChar B) : List B :=
  match character.bounds.bind geometry.sanitizeBounds with
  | none => runs
  | some bounds =>
    match runs.getLast? with
    | none => runs ++ [bounds]
    | some current =>
      if geometry.canMergeRuns current bounds then
        runs.dropLast ++ [geometry.unionBounds current bounds]
      else runs ++ [bounds]

def mergeFrom : List (TextChar B) → Nat → List B → Polled (List B)
  | [], _, runs => pure runs
  | character :: characters, offset, runs => do
    pollAt shouldCancel offset
    mergeFrom characters (offset + 1) (mergeBounds geometry runs character)

def highlightRuns (characters : List (TextChar B)) (start finish : Nat) : Polled (List B) :=
  if start ≤ finish + 1 ∧ finish < characters.length then
    mergeFrom geometry shouldCancel ((characters.take (finish + 1)).drop start) 0 []
  else pure []

/-- The loop over the normalized characters `rest` of a page, of which `atoms` are all. -/
def matchFrom (page : Nat) (characters : List (TextChar B)) (query : SearchQuery) (limit : Nat)
    (atoms : List SourceAtom) :
    List SourceAtom → Nat → Nat → List (SearchMatch B) → Polled (List (SearchMatch B) × Bool)
  | [], _, _, found => pure (found, false)
  | atom :: rest, index, matched, found => do
    pollAt shouldCancel index
    let matched ← expect (advance query.normalized query.failure atom.value matched)
    if matched ≠ query.normalized.length then
      matchFrom page characters query limit atoms rest (index + 1) matched found
    else
      let first ← expect (if query.normalized.length ≤ index + 1 then
        atoms[index + 1 - query.normalized.length]? else none)
      if found.length = limit then pure (found, true)
      else
        let runs ← highlightRuns geometry shouldCancel characters first.sourceStart atom.sourceEnd
        let (text, range) ← expect (preview characters first.sourceStart atom.sourceEnd)
        matchFrom page characters query limit atoms rest (index + 1) 0
          (found ++ [{ id := ⟨page, first.sourceStart, atom.sourceEnd⟩, preview := text
                       previewMatch := range, highlightRuns := runs }])

def search (page : Nat) (characters : List (TextChar B)) (query : SearchQuery)
    (resultLimit : Nat) : Polled (SearchPageResults B) := do
  poll shouldCancel
  let atoms ← normalizePage toLowercase shouldCancel characters
  poll shouldCancel
  let (found, truncated) ← matchFrom geometry shouldCancel page characters query
    (min resultLimit maxSearchResults) atoms atoms 0 0 []
  poll shouldCancel
  pure { page, found, truncated }

/-- `search_page`, which does not panic if there is an outcome. -/
def searchPage (page : Nat) (characters : List (TextChar B)) (query : SearchQuery)
    (resultLimit : Nat) : Option (SearchPageOutcome B) :=
  match search toLowercase geometry shouldCancel page characters query resultLimit 0 with
  | .ok (results, _) => some (.complete results)
  | .error .cancelled => some .cancelled
  | .error .panicked => none

end page

end KeyReader.Search
