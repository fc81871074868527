import Mathlib.Tactic.Common
/-!
# Sequential files

A file whose content is a sequence of records, produced on demand by four
operations of its owner.  One read call starts the sequence at the saved index,
takes records while the output fits, stops the sequence and saves an index for
the next call; the session is over when the sequence cannot be started.  An
operation that gives `none` faults.
-/

namespace CddDriver.Lib

/-- The operations of a sequence with states `σ` and positions `ρ` in it.
`next` also updates the index that goes with the position. -/
structure SeqOps (σ ρ : Type) where
  start : Nat → σ → Option (σ × Option ρ)
  next : ρ → Nat → σ → Option (σ × Option ρ × Nat)
  stop : Option ρ → σ → Option σ
  record : ρ → σ → Option (List Char)

/-- The bytes that a read call asks for, and those that the buffer takes. -/
structure SeqRequest where
  size : Nat
  capacity : Nat

def SeqRequest.Holds (q : SeqRequest) (n : Nat) : Prop :=
  n ≤ q.size ∧ n ≤ q.capacity

instance (q : SeqRequest) (n : Nat) : Decidable (q.Holds n) :=
  inferInstanceAs (Decidable (_ ∧ _))

namespace SeqOps

variable {σ ρ : Type} (M : SeqOps σ ρ)

/-- The records after the first one of a chunk, `fuel` at most: the output, the
index of the last record in it, and where the sequence stands.  A record that
does not fit is left to the next call.  The `seq_read` of `fs/seq_file.c` differs
where it is the user's size that a record exceeds: there it keeps the record and
hands out the rest of it first thing in the next call. -/
def fill (q : SeqRequest) : Nat → List Char → Nat → ρ → σ →
    Option (List Char × Nat × Option ρ × σ)
  | 0, _, _, _, _ => none
  | fuel + 1, out, pos, v, s =>
      if q.size ≤ out.length then some (out, pos, some v, s)
      else
        (M.next v pos s).bind fun r =>
          match r.2.1 with
          | none => some (out, pos, none, r.1)
          | some v =>
              (M.record v r.1).bind fun line =>
                if q.Holds (out.length + line.length) then
                  fill q fuel (out ++ line) r.2.2 v r.1
                else some (out, pos, some v, r.1)

/-- One read call at the saved index: the output with the index that is saved,
or nothing when the sequence did not start. -/
def read (fuel : Nat) (q : SeqRequest) (index : Nat) (s : σ) :
    Option (Option (List Char × Nat) × σ) :=
  (M.start index s).bind fun r =>
    match r.2 with
    | none => (M.stop none r.1).map fun s => (none, s)
    | some v =>
        (M.record v r.1).bind fun line =>
          (M.fill q fuel line index v r.1).bind fun c =>
            (M.stop c.2.2.1 c.2.2.2).map fun s => (some (c.1, c.2.1 + 1), s)

/-- The output of read calls, and whether one of them ended the session. -/
def session (fuel : Nat) : List SeqRequest → Nat → σ → Option (List Char × Bool)
  | [], _, _ => some ([], false)
  | q :: qs, index, s =>
      (M.read fuel q index s).bind fun r =>
        match r.1 with
        | none => some ([], true)
        | some (out, index) =>
            (session fuel qs index r.2).map fun rest => (out ++ rest.1, rest.2)

end SeqOps

/-! ## The chunk of a read call -/

def seqChunk (q : SeqRequest) (out : List Char) : List (List Char) → List Char
  | [] => out
  | line :: lines =>
      if q.size ≤ out.length then out
      else if q.Holds (out.length + line.length) then
        seqChunk q (out ++ line) lines
      else out

theorem seqChunk_full {q : SeqRequest} {out : List Char}
    (lines : List (List Char)) (hfull : q.size ≤ out.length) :
    seqChunk q out lines = out := by
  cases lines with
  | nil => rfl
  | cons line lines => exact if_pos hfull

theorem seqChunk_eq_iff {q : SeqRequest} {out : List Char}
    {lines : List (List Char)} (hout : q.Holds out.length) :
    seqChunk q out lines = out ++ lines.flatten ↔
      q.Holds (out ++ lines.flatten).length := by
  induction lines generalizing out with
  | nil => simpa [seqChunk] using hout
  | cons line lines ih =>
      have hself : out = out ++ (line :: lines).flatten ↔
          (line :: lines).flatten.length = 0 := by
        rw [List.length_eq_zero_iff, List.self_eq_append_right]
      have hlength : (line :: lines).flatten.length =
          line.length + lines.flatten.length := by simp
      unfold seqChunk
      split
      · next hfull =>
          rw [hself, List.length_append]
          unfold SeqRequest.Holds at hout ⊢
          omega
      · split
        · next hfits =>
            rw [← List.length_append] at hfits
            have hrest := ih hfits
            rwa [List.append_assoc, ← List.flatten_cons] at hrest
        · next hfits =>
            rw [hself, List.length_append]
            unfold SeqRequest.Holds at hout hfits ⊢
            omega

namespace SeqOps

variable {σ ρ : Type} {M : SeqOps σ ρ}

/-- In a state with `At j v`, position `v` stands at record `j` of `lines`, and
the operations go through them in order. -/
structure Walks (M : SeqOps σ ρ) (lines : List (List Char))
    (At : Nat → ρ → σ → Prop) : Prop where
  record : ∀ {j v s}, At j v s → ∃ line, lines[j]? = some line ∧
    M.record v s = some line
  next : ∀ {j v s} pos, At j v s → j + 1 < lines.length →
    ∃ s' v' pos', M.next v pos s = some (s', some v', pos') ∧ At (j + 1) v' s'
  last : ∀ {j v s} pos, At j v s → j + 1 = lines.length →
    ∃ s' pos', M.next v pos s = some (s', none, pos')
  stop : ∀ {j v s}, At j v s → ∃ s', M.stop (some v) s = some s'
  stop_none : ∀ s, ∃ s', M.stop none s = some s'

section Walks

variable {lines : List (List Char)} {At : Nat → ρ → σ → Prop}

/-- With enough fuel a chunk takes what fits of the records left, and the
sequence can be stopped where it stands. -/
theorem Walks.fill (h : M.Walks lines At) (q : SeqRequest) (out : List Char)
    (pos : Nat) {fuel j : Nat} {v : ρ} {s : σ} (hv : At j v s)
    (hfuel : lines.length ≤ fuel + j) :
    ∃ pos' v' s' s'', M.fill q fuel out pos v s =
        some (seqChunk q out (lines.drop (j + 1)), pos', v', s') ∧
      M.stop v' s' = some s'' := by
  induction fuel generalizing j out pos v s with
  | zero =>
      obtain ⟨line, hline, -⟩ := h.record hv
      obtain ⟨hlt, -⟩ := List.getElem?_eq_some_iff.mp hline
      omega
  | succ fuel ih =>
      unfold SeqOps.fill
      obtain ⟨t, ht⟩ := h.stop hv
      by_cases hfull : q.size ≤ out.length
      · rw [if_pos hfull, seqChunk_full _ hfull]
        exact ⟨_, _, _, t, rfl, ht⟩
      · rw [if_neg hfull]
        by_cases hlast : j + 1 = lines.length
        · obtain ⟨s', pos', hnext⟩ := h.last pos hv hlast
          obtain ⟨t, ht⟩ := h.stop_none s'
          rw [hnext, List.drop_eq_nil_of_le (by omega)]
          exact ⟨_, _, _, t, rfl, ht⟩
        · obtain ⟨line, hline, -⟩ := h.record hv
          obtain ⟨hlt, -⟩ := List.getElem?_eq_some_iff.mp hline
          obtain ⟨s', v', pos', hnext, hv'⟩ := h.next pos hv (by omega)
          obtain ⟨line', hline', hrecord⟩ := h.record hv'
          obtain ⟨hlt', rfl⟩ := List.getElem?_eq_some_iff.mp hline'
          rw [hnext, List.drop_eq_getElem_cons hlt']
          simp only [Option.bind_some, hrecord, seqChunk, if_neg hfull]
          split
          · exact ih _ _ hv' (by omega)
          · obtain ⟨t, ht⟩ := h.stop hv'
            exact ⟨_, _, _, t, rfl, ht⟩

theorem Walks.read (h : M.Walks lines At) (q : SeqRequest) {fuel index : Nat}
    {v : ρ} {s t : σ} (hstart : M.start index s = some (t, some v)) (hv : At 0 v t)
    (hfuel : lines.length ≤ fuel) :
    ∃ line rest index' u, lines = line :: rest ∧
      M.read fuel q index s = some (some (seqChunk q line rest, index' + 1), u) := by
  obtain ⟨line, hline, hrecord⟩ := h.record hv
  obtain ⟨pos', v', s', u, hfill, hstop⟩ :=
    h.fill q line index hv hfuel
  cases lines with
  | nil => cases hline
  | cons first rest =>
      obtain rfl : first = line := Option.some.inj hline
      refine ⟨first, rest, pos', u, rfl, ?_⟩
      unfold SeqOps.read
      simp only [hstart, Option.bind_some, hrecord, hfill, hstop, Option.map_some]
      rfl

structure StartsOnce (M : SeqOps σ ρ) (lines : List (List Char))
    (At : Nat → ρ → σ → Prop) : Prop where
  walks : M.Walks lines At
  again : ∀ index t, 0 < index → ∃ u, M.start index t = some (u, none)

namespace StartsOnce

variable {s t : σ} {v : ρ} {fuel : Nat}

theorem read_none (h : M.StartsOnce lines At) (fuel : Nat) (q : SeqRequest)
    {index : Nat} (hstart : M.start index s = some (t, none)) :
    ∃ u, M.read fuel q index s = some (none, u) := by
  obtain ⟨u, hu⟩ := h.walks.stop_none t
  exact ⟨u, by simp [SeqOps.read, hstart, hu]⟩

theorem session_null (h : M.StartsOnce lines At) (fuel : Nat) (q : SeqRequest)
    (qs : List SeqRequest) (hstart : M.start 0 s = some (t, none)) :
    M.session fuel (q :: qs) 0 s = some ([], true) := by
  obtain ⟨u, hu⟩ := h.read_none fuel q hstart
  simp [SeqOps.session, hu]

theorem session_again (h : M.StartsOnce lines At) (qs : List SeqRequest)
    {index : Nat} (s : σ) (hindex : 0 < index) :
    M.session fuel qs index s = some ([], decide (qs ≠ [])) := by
  cases qs with
  | nil => rfl
  | cons q qs =>
      obtain ⟨u, hu⟩ := h.again index s hindex
      obtain ⟨v, hv⟩ := h.read_none fuel q hu
      simp [SeqOps.session, hv]

theorem session_chunk (h : M.StartsOnce lines At) (q : SeqRequest)
    (qs : List SeqRequest) (hstart : M.start 0 s = some (t, some v))
    (hv : At 0 v t) (hfuel : lines.length ≤ fuel) :
    ∃ line rest, lines = line :: rest ∧
      M.session fuel (q :: qs) 0 s =
        some (seqChunk q line rest, decide (qs ≠ [])) := by
  obtain ⟨line, rest, index, u, hlines, hread⟩ := h.walks.read q hstart hv hfuel
  refine ⟨line, rest, hlines, ?_⟩
  simp [SeqOps.session, hread, h.session_again qs u (Nat.succ_pos index)]

/-- A session with two read calls has ended, and it has delivered everything
exactly when everything fits the first one. -/
theorem session_complete_iff (h : M.StartsOnce lines At) {q : SeqRequest}
    {qs : List SeqRequest} (hstart : M.start 0 s = some (t, some v))
    (hv : At 0 v t) (hfuel : lines.length ≤ fuel)
    (hroom : ∀ line ∈ lines, q.Holds line.length) :
    ∃ out, M.session fuel (q :: qs) 0 s = some (out, decide (qs ≠ [])) ∧
      (out = lines.flatten ↔ q.Holds lines.flatten.length) := by
  obtain ⟨line, rest, rfl, hsession⟩ := h.session_chunk q qs hstart hv hfuel
  refine ⟨_, hsession, ?_⟩
  rw [List.flatten_cons]
  exact seqChunk_eq_iff (hroom line List.mem_cons_self)

end StartsOnce

end Walks

end SeqOps

end CddDriver.Lib
