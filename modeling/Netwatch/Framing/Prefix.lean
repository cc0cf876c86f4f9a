import Mathlib.Data.List.Basic

/-!
# Length-prefixed frames

A stream of symbols that carries bodies, each behind its length.

## Main definitions

- `LengthPrefix` — how a length is written
- `frame`, `frames` — a body, and a list of them, as they stand in the stream
- `bodies` — the bodies of a stream whose frames are complete

## Main results

- `bodies_frames_append` — what is framed is read back, with whatever follows
- `bodies_isPrefix` — more of a stream only adds bodies
-/

namespace Framing

/-- Lengths up to `max`, each written as `width` symbols. -/
structure LengthPrefix (β : Type*) where
  width : ℕ
  max : ℕ
  encode : ℕ → List β
  decode : List β → ℕ
  width_pos : 0 < width
  length_encode : ∀ n, (encode n).length = width
  decode_encode : ∀ n ≤ max, decode (encode n) = n

namespace LengthPrefix

variable {β : Type*} (p : LengthPrefix β)

def frame (body : List β) : List β := p.encode body.length ++ body

def frames (bs : List (List β)) : List β := (bs.map p.frame).flatten

/-- The first body of a stream and what follows it. -/
def next (stream : List β) : Option (List β × List β) :=
  let len := p.decode (stream.take p.width)
  if p.width + len ≤ stream.length then
    some ((stream.drop p.width).take len, (stream.drop p.width).drop len)
  else none

variable {p} {stream body rest more : List β}

theorem length_of_next (h : p.next stream = some (body, rest)) :
    stream.length = p.width + body.length + rest.length := by
  rw [next] at h
  split at h
  · next hlen =>
    obtain ⟨rfl, rfl⟩ := Prod.mk.inj (Option.some.inj h)
    rw [List.length_take, List.length_drop, List.length_drop, List.length_drop]
    omega
  · cases h

variable (p)

def bodies (stream : List β) : List (List β) :=
  match h : p.next stream with
  | none => []
  | some (body, rest) =>
    have : rest.length < stream.length := by
      have hlength := length_of_next h
      have hpos := p.width_pos
      omega
    body :: bodies rest
termination_by stream.length

variable {p}

theorem bodies_of_none (h : p.next stream = none) : p.bodies stream = [] := by
  rw [bodies]
  split
  · rfl
  · next hsome => rw [h] at hsome; cases hsome

theorem bodies_of_some (h : p.next stream = some (body, rest)) :
    p.bodies stream = body :: p.bodies rest := by
  rw [bodies]
  split
  · next hnone => rw [h] at hnone; cases hnone
  · next hsome =>
    rw [h] at hsome
    obtain ⟨rfl, rfl⟩ := Prod.mk.inj (Option.some.inj hsome)
    rfl

theorem next_frame_append (hbody : body.length ≤ p.max) (rest : List β) :
    p.next (p.frame body ++ rest) = some (body, rest) := by
  have htake : (p.frame body ++ rest).take p.width = p.encode body.length := by
    rw [frame, List.append_assoc, ← p.length_encode body.length, List.take_left]
  have hdrop : (p.frame body ++ rest).drop p.width = body ++ rest := by
    rw [frame, List.append_assoc, ← p.length_encode body.length, List.drop_left]
  simp only [next, htake, hdrop, p.decode_encode _ hbody]
  rw [if_pos, List.take_left, List.drop_left]
  rw [frame, List.length_append, List.length_append, p.length_encode]
  omega

theorem bodies_frames_append {bs : List (List β)} (hbs : ∀ b ∈ bs, b.length ≤ p.max)
    (rest : List β) : p.bodies (p.frames bs ++ rest) = bs ++ p.bodies rest := by
  induction bs with
  | nil => rfl
  | cons b bs ih =>
    obtain ⟨hb, hbs⟩ := List.forall_mem_cons.mp hbs
    have hnext : p.next (p.frames (b :: bs) ++ rest) = some (b, p.frames bs ++ rest) := by
      rw [frames, List.map_cons, List.flatten_cons, List.append_assoc]
      exact next_frame_append hb _
    rw [bodies_of_some hnext, ih hbs, List.cons_append]

theorem bodies_nil : p.bodies [] = [] := by
  refine bodies_of_none ?_
  rw [next, if_neg]
  have hpos := p.width_pos
  simp only [List.length_nil]
  omega

theorem bodies_frames {bs : List (List β)} (hbs : ∀ b ∈ bs, b.length ≤ p.max) :
    p.bodies (p.frames bs) = bs := by
  have happend := bodies_frames_append hbs []
  rw [List.append_nil, bodies_nil, List.append_nil] at happend
  exact happend

theorem next_append (h : p.next stream = some (body, rest)) (more : List β) :
    p.next (stream ++ more) = some (body, rest ++ more) := by
  rw [next] at h
  split at h
  · next hlen =>
    obtain ⟨rfl, rfl⟩ := Prod.mk.inj (Option.some.inj h)
    have htake : (stream ++ more).take p.width = stream.take p.width :=
      List.take_append_of_le_length (by omega)
    have hdrop : (stream ++ more).drop p.width = stream.drop p.width ++ more :=
      List.drop_append_of_le_length (by omega)
    have hrest : p.decode (stream.take p.width) ≤ (stream.drop p.width).length := by
      rw [List.length_drop]
      omega
    simp only [next, htake, hdrop, List.length_append]
    rw [if_pos (by omega), List.take_append_of_le_length hrest,
      List.drop_append_of_le_length hrest]
  · cases h

theorem bodies_isPrefix_append (stream more : List β) :
    p.bodies stream <+: p.bodies (stream ++ more) := by
  induction stream using bodies.induct p with
  | case1 stream hnext =>
    rw [bodies_of_none hnext]
    exact List.nil_prefix
  | case2 stream body rest hnext _ ih =>
    rw [bodies_of_some hnext, bodies_of_some (next_append hnext more)]
    exact (List.prefix_cons_inj body).mpr ih

theorem bodies_isPrefix (h : stream <+: more) : p.bodies stream <+: p.bodies more := by
  obtain ⟨t, rfl⟩ := h
  exact bodies_isPrefix_append stream t

end LengthPrefix

end Framing
