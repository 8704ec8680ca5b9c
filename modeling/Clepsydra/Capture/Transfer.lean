import Clepsydra.Library.Bytes

/-!
Owns: how a snapshot travels from the content script to the worker: its chunks, and the
assembler that puts them together.

Proves: from chunks of one text the assembler returns nothing but that text.
-/

namespace Clepsydra.Capture

open Library List Function Option

abbrev Text := List UInt16

def chunkSize : Nat := 4 * 1024 * 1024

def maxCaptureChunks : Nat := 128

def maxCaptureTextLength : Nat := 512 * 1024 * 1024

/-- `CaptureChunk`. -/
structure CaptureChunk where
  captureId : String
  index : Nat
  total : Nat
  text : Text

/-! ### Splitting -/

def chunkTotal (text : Text) : Nat := max 1 ((text.length + chunkSize - 1) / chunkSize)

theorem chunkTotal_pos (text : Text) : 0 < chunkTotal text :=
  Nat.lt_of_lt_of_le Nat.zero_lt_one (Nat.le_max_left 1 _)

def chunkText (text : Text) (index : Nat) : Text := (text.drop (index * chunkSize)).take chunkSize

def chunkAt (captureId : String) (text : Text) (index : Nat) : CaptureChunk :=
  ⟨captureId, index, chunkTotal text, chunkText text index⟩

/-- `splitIntoChunks`. -/
def splitIntoChunks (captureId : String) (text : Text) : List CaptureChunk :=
  (List.range (chunkTotal text)).map (chunkAt captureId text)

/-! ### Assembling -/

/-- `CaptureBuffer`. -/
structure CaptureBuffer where
  total : Nat
  length : Nat
  parts : List (Nat × Text)

abbrev Buffers := String → Option CaptureBuffer

def CaptureBuffer.part (buffer : CaptureBuffer) (index : Nat) : Option Text :=
  (buffer.parts.find? fun part => part.1 = index).map Prod.snd

def CaptureBuffer.join (buffer : CaptureBuffer) : Text :=
  ((List.range buffer.total).map fun index => (buffer.part index).getD []).flatten

def rejection (captureId reason : String) : String :=
  "Invalid capture chunk \"" ++ captureId ++ "\": " ++ reason

def chunkRefusal (existing : Option CaptureBuffer) (chunk : CaptureChunk) : Option String :=
  if chunk.captureId = "" then some "captureId must be a non-empty string"
  else if chunk.total < 1 then some "total must be a positive safe integer"
  else if maxCaptureChunks < chunk.total then
    some ("total " ++ toString chunk.total ++ " exceeds the " ++ toString maxCaptureChunks
      ++ "-chunk limit")
  else if chunk.total ≤ chunk.index then
    some ("index " ++ toString chunk.index ++ " must be a safe integer between 0 and "
      ++ toString (chunk.total - 1))
  else if chunkSize < chunk.text.length then
    some ("chunk size " ++ toString chunk.text.length ++ " exceeds " ++ toString chunkSize
      ++ " characters")
  else
    match existing with
    | none => none
    | some buffer =>
      if buffer.total ≠ chunk.total then
        some ("total changed from " ++ toString buffer.total ++ " to " ++ toString chunk.total)
      else none

def extended (existing : Option CaptureBuffer) (chunk : CaptureChunk) : CaptureBuffer :=
  ⟨chunk.total, (existing.map CaptureBuffer.length).getD 0 + chunk.text.length,
    (existing.map CaptureBuffer.parts).getD [] ++ [(chunk.index, chunk.text)]⟩

/-- `ChunkAssembler.accept`. A refusal forgets the capture. -/
def accept (buffers : Buffers) (chunk : CaptureChunk) : Buffers × Except String (Option Text) :=
  let existing := buffers chunk.captureId
  let refuse := fun reason =>
    (update buffers chunk.captureId none, Except.error (rejection chunk.captureId reason))
  match chunkRefusal existing chunk with
  | some reason => refuse reason
  | none =>
    match existing.bind fun buffer => buffer.part chunk.index with
    | some duplicate =>
      if duplicate = chunk.text then (buffers, .ok none)
      else
        refuse ("duplicate index " ++ toString chunk.index ++ " has conflicting content")
    | none =>
      let buffer := extended existing chunk
      if maxCaptureTextLength < buffer.length then
        refuse ("aggregate text length " ++ toString buffer.length ++ " exceeds "
          ++ toString maxCaptureTextLength ++ " characters")
      else if buffer.parts.length < buffer.total then
        (update buffers chunk.captureId (some buffer), .ok none)
      else (update buffers chunk.captureId none, .ok (some buffer.join))

/-! ### What arrives is what was sent -/

structure Holds (text : Text) (buffer : CaptureBuffer) : Prop where
  total : buffer.total = chunkTotal text
  parts : ∀ part ∈ buffer.parts, part.1 < chunkTotal text ∧ part.2 = chunkText text part.1
  distinct : (buffer.parts.map Prod.fst).Nodup

theorem chunks_cover (text : Text) : text.length ≤ chunkTotal text * chunkSize := by
  have counted : pieceCount chunkSize text ≤ chunkTotal text := Nat.le_max_right _ _
  exact Nat.le_trans (length_le_pieceCount (by decide) text)
    (Nat.mul_le_mul_right chunkSize counted)

theorem flatten_chunkText (text : Text) (count : Nat) :
    ((List.range count).map (chunkText text)).flatten = text.take (count * chunkSize) :=
  flatten_pieces chunkSize text count

section Holds

variable {text : Text} {buffer : CaptureBuffer}

theorem Holds.part_eq {index : Nat} {found : Text} (holds : Holds text buffer)
    (isPart : buffer.part index = some found) : found = chunkText text index := by
  have ⟨part, isFound, isText⟩ := map_eq_some_iff.1 isPart
  have isIndex : part.1 = index := by simpa using find?_some isFound
  rw [← isText, (holds.parts part (mem_of_find?_eq_some isFound)).2, isIndex]

theorem Holds.part_of_full (holds : Holds text buffer) (full : buffer.total ≤ buffer.parts.length)
    {index : Nat} (below : index < chunkTotal text) :
    buffer.part index = some (chunkText text index) := by
  have within : (buffer.parts.map Prod.fst).toFinset ⊆ Finset.range (chunkTotal text) := by
    intro key isKey
    have ⟨part, member, isFirst⟩ := List.mem_map.1 (List.mem_toFinset.1 isKey)
    rw [Finset.mem_range, ← isFirst]
    exact (holds.parts part member).1
  have enough : (Finset.range (chunkTotal text)).card
      ≤ (buffer.parts.map Prod.fst).toFinset.card := by
    rw [Finset.card_range, toFinset_card_of_nodup holds.distinct, length_map, ← holds.total]
    exact full
  have all := Finset.eq_of_subset_of_card_le within enough
  have isKey : index ∈ buffer.parts.map Prod.fst := by
    rw [← List.mem_toFinset, all, Finset.mem_range]
    exact below
  have ⟨part, member, isFirst⟩ := List.mem_map.1 isKey
  have found : (buffer.part index).isSome := by
    unfold CaptureBuffer.part
    rw [isSome_map, find?_isSome]
    exact ⟨part, member, by simpa using isFirst⟩
  have ⟨value, isValue⟩ := isSome_iff_exists.1 found
  rw [isValue, holds.part_eq isValue]

theorem Holds.join_eq (holds : Holds text buffer) (full : buffer.total ≤ buffer.parts.length) :
    buffer.join = text := by
  have parts : (List.range buffer.total).map (fun index => (buffer.part index).getD [])
      = (List.range (chunkTotal text)).map (chunkText text) := by
    rw [holds.total]
    refine map_congr_left fun index isIndex => ?_
    rw [holds.part_of_full full (mem_range.1 isIndex), getD_some]
  unfold CaptureBuffer.join
  rw [parts, flatten_chunkText]
  exact take_of_length_le (chunks_cover text)

end Holds

theorem accept_cases (buffers : Buffers) (chunk : CaptureChunk) : (∃ reason, accept buffers chunk
        = (update buffers chunk.captureId none, .error reason))
      ∨ accept buffers chunk = (buffers, .ok none)
      ∨ ((buffers chunk.captureId).bind (fun buffer => buffer.part chunk.index) = none
        ∧ (accept buffers chunk = (update buffers chunk.captureId
                (some (extended (buffers chunk.captureId) chunk)), .ok none)
          ∨ ((extended (buffers chunk.captureId) chunk).total
                ≤ (extended (buffers chunk.captureId) chunk).parts.length
            ∧ accept buffers chunk = (update buffers chunk.captureId none,
                .ok (some (extended (buffers chunk.captureId) chunk).join))))) := by
  unfold accept
  simp only
  cases chunkRefusal (buffers chunk.captureId) chunk with
  | some reason => exact .inl ⟨_, rfl⟩
  | none =>
    simp only
    cases (buffers chunk.captureId).bind fun buffer => buffer.part chunk.index with
    | some duplicate =>
      simp only
      by_cases same : duplicate = chunk.text
      · rw [if_pos same]
        exact .inr (.inl rfl)
      · rw [if_neg same]
        exact .inl ⟨_, rfl⟩
    | none =>
      simp only
      split_ifs with long short
      · exact .inl ⟨_, rfl⟩
      · exact .inr (.inr ⟨trivial, .inl rfl⟩)
      · exact .inr (.inr ⟨trivial, .inr ⟨Nat.le_of_not_lt short, rfl⟩⟩)

theorem part_eq_none {buffer : CaptureBuffer} {index : Nat} (absent : buffer.part index = none) :
    index ∉ buffer.parts.map Prod.fst := by
  intro isKey
  have ⟨part, member, isFirst⟩ := List.mem_map.1 isKey
  have none := find?_eq_none.1 (map_eq_none_iff.1 absent) part member
  exact none (by simpa using isFirst)

theorem Holds.extended {text : Text} {existing : Option CaptureBuffer} {captureId : String}
    {index : Nat} (below : index < chunkTotal text)
    (holds : ∀ buffer, existing = some buffer → Holds text buffer)
    (absent : existing.bind (fun buffer => buffer.part index) = none) :
    Holds text (extended existing (chunkAt captureId text index)) := by
  cases existing with
  | none =>
    refine ⟨rfl, fun part member => ?_, nodup_singleton index⟩
    rw [mem_singleton.1 member]
    exact ⟨below, rfl⟩
  | some buffer =>
    have before := holds buffer rfl
    refine ⟨rfl, fun part member => ?_, ?_⟩
    · rcases mem_append.1 member with old | new
      · exact before.parts part old
      · rw [mem_singleton.1 new]
        exact ⟨below, rfl⟩
    · show ((buffer.parts ++ [(index, chunkText text index)]).map Prod.fst).Nodup
      rw [map_append, nodup_append_comm]
      exact nodup_cons.2 ⟨part_eq_none absent, before.distinct⟩

section Accept

variable {buffers : Buffers} {captureId : String} {text : Text} {index : Nat}

theorem accept_other {chunk : CaptureChunk} {other : String} (isOther : other ≠ chunk.captureId) :
    (accept buffers chunk).1 other = buffers other := by
  rcases accept_cases buffers chunk with ⟨reason, is⟩ | is | ⟨_, is | ⟨_, is⟩⟩
  all_goals rw [is]
  · exact update_of_ne isOther _ _
  · exact update_of_ne isOther _ _
  · exact update_of_ne isOther _ _

theorem accept_holds (below : index < chunkTotal text)
    (holds : ∀ buffer, buffers captureId = some buffer → Holds text buffer) :
    ∀ buffer, (accept buffers (chunkAt captureId text index)).1 captureId = some buffer →
      Holds text buffer := by
  intro buffer kept
  rcases accept_cases buffers (chunkAt captureId text index) with
    ⟨reason, is⟩ | is | ⟨absent, is | ⟨_, is⟩⟩
  all_goals rw [is] at kept
  · simp only [chunkAt, update_self] at kept
    cases kept
  · exact holds buffer kept
  · simp only [chunkAt, update_self] at kept
    rw [← some.inj kept]
    exact Holds.extended below holds absent
  · simp only [chunkAt, update_self] at kept
    cases kept

theorem accept_whole (below : index < chunkTotal text)
    (holds : ∀ buffer, buffers captureId = some buffer → Holds text buffer) {whole : Text}
    (returned : (accept buffers (chunkAt captureId text index)).2 = .ok (some whole)) :
    whole = text := by
  rcases accept_cases buffers (chunkAt captureId text index) with
    ⟨reason, is⟩ | is | ⟨absent, is | ⟨full, is⟩⟩
  all_goals rw [is] at returned
  · cases returned
  · cases returned
  · cases returned
  · rw [← some.inj (Except.ok.inj returned)]
    exact (Holds.extended below holds absent).join_eq full

end Accept

end Clepsydra.Capture
