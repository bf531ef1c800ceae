import Mathlib.Data.List.Basic
import Mathlib.Tactic.Common

/-!
# Messages in pieces

A stream carries messages one after another, each as a token with its kind, its items
and a token for its end. A reader takes the items as they come, or a whole message when
all of it is there. `walk` follows a stream from between two messages or from within
one, so that streams which continue each other are cut at any place.
-/

namespace Buffers

variable {κ α : Type*}

/-- A piece of a stream of messages. -/
inductive Token (κ α : Type*)
  | first (kind : κ)
  | item (a : α)
  | last
  deriving DecidableEq

namespace Token

/-- The items of a stream. -/
def items : List (Token κ α) → List α
  | [] => []
  | item a :: ts => a :: items ts
  | first _ :: ts | last :: ts => items ts

/-- A message as a stream. -/
def encode (kind : κ) (xs : List α) : List (Token κ α) := first kind :: (xs.map item ++ [last])

/-- The items at the head of a stream, and what follows them. -/
def splitItems : List (Token κ α) → List α × List (Token κ α)
  | item a :: ts => (a :: (splitItems ts).1, (splitItems ts).2)
  | ts => ([], ts)

/-- The message at the head of a stream, if all of it is there. -/
def takeMessage : List (Token κ α) → Option (κ × List α × List (Token κ α))
  | first kind :: ts =>
    match splitItems ts with
    | (xs, last :: rest) => some (kind, xs, rest)
    | _ => none
  | _ => none

/-- Follow a stream: from within a message or not, to within a message or not. -/
def walk : Bool → List (Token κ α) → Option Bool
  | inside, [] => some inside
  | false, first _ :: ts => walk true ts
  | true, item _ :: ts => walk true ts
  | true, last :: ts => walk false ts
  | _, _ :: _ => none

variable {kind : κ} {xs : List α} {ts us rest : List (Token κ α)} {inside : Bool}

/-- The items of streams that continue each other. -/
@[simp] theorem items_append (ts us : List (Token κ α)) :
    items (ts ++ us) = items ts ++ items us := by
  induction ts with
  | nil => rfl
  | cons token ts ih => cases token <;> simp [items, ih]

/-- The items of a message. -/
@[simp] theorem items_encode (kind : κ) (xs : List α) : items (encode kind xs) = xs := by
  have hitems : items (xs.map item : List (Token κ α)) = xs := by
    induction xs with
    | nil => rfl
    | cons x xs ih => simp [items, ih]
  simp [encode, items, hitems]

/-- A stream is what is split off and what follows. -/
theorem append_splitItems (ts : List (Token κ α)) :
    (splitItems ts).1.map item ++ (splitItems ts).2 = ts := by
  induction ts with
  | nil => rfl
  | cons token ts ih => cases token <;> simp [splitItems, ih]

/-- A part of the items at the head can be taken first. -/
theorem append_drop_of_prefix_splitItems (h : xs <+: (splitItems ts).1) :
    xs.map item ++ ts.drop xs.length = ts := by
  obtain ⟨more, hmore⟩ := h
  have hts := append_splitItems ts
  rw [← hmore, List.map_append, List.append_assoc] at hts
  rw [← hts, List.drop_left' (by rw [List.length_map])]

/-- The stream of a message that is taken. -/
theorem eq_of_takeMessage (h : takeMessage ts = some (kind, xs, rest)) :
    ts = encode kind xs ++ rest := by
  cases ts with
  | nil => cases h
  | cons token ts =>
    cases token with
    | item | last => cases h
    | first kind' =>
      have hts := append_splitItems ts
      simp only [takeMessage] at h
      split at h
      next ys rest' hsplit =>
        cases h
        rw [hsplit] at hts
        simp [encode, ← hts]
      next => cases h

/-- Streams that continue each other are followed one after the other. -/
theorem walk_append (inside : Bool) (ts us : List (Token κ α)) :
    walk inside (ts ++ us) = (walk inside ts).bind (walk · us) := by
  induction ts generalizing inside with
  | nil => rfl
  | cons token ts ih => cases inside <;> cases token <;> simp [walk, ih]

/-- Items stay within their message. -/
theorem walk_map_item (xs : List α) :
    walk true (xs.map item : List (Token κ α)) = some true := by
  induction xs with
  | nil => rfl
  | cons x xs ih => simpa [walk] using ih

/-- A message leads from between two messages to between two messages. -/
@[simp] theorem walk_encode (kind : κ) (xs : List α) :
    walk false (encode kind xs) = some false := by
  simp [encode, walk, walk_append, walk_map_item]

end Token

end Buffers
