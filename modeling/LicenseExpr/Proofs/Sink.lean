import LicenseExpr.Sink
import Mathlib.Data.List.Basic

/-!
# What a sink takes

A sink takes all of what it is handed if that fits. If not, it takes the bytes up to the first that does
not, and the failure tells whether that byte is part of a document. So how an output is cut into chunks
makes no difference, but for where its documents begin and end (`writeChunks_congr`).
-/

namespace LicenseExpr

namespace Chunk

def bytes (chunks : List Chunk) : List UInt8 := chunks.flatMap fun c => Text.bytes c.text

/-- For each byte of the chunks, whether it is part of a document. -/
def marks (chunks : List Chunk) : List Bool :=
  chunks.flatMap fun c => List.replicate (Text.bytes c.text).length c.inDocument

theorem bytes_cons (c : Chunk) (chunks : List Chunk) :
    bytes (c :: chunks) = Text.bytes c.text ++ bytes chunks := List.flatMap_cons

theorem marks_cons (c : Chunk) (chunks : List Chunk) :
    marks (c :: chunks) = List.replicate (Text.bytes c.text).length c.inDocument ++ marks chunks :=
  List.flatMap_cons

theorem bytes_eq (chunks : List Chunk) :
    bytes chunks = Text.bytes (String.join (chunks.map (·.text))) := by
  induction chunks with
  | nil => rfl
  | cons c chunks ih => rw [bytes_cons, ih, List.map_cons, String.join_cons, Text.bytes_append]

theorem length_marks (chunks : List Chunk) : (marks chunks).length = (bytes chunks).length := by
  induction chunks with
  | nil => rfl
  | cons c chunks ih =>
    rw [marks_cons, bytes_cons, List.length_append, List.length_append, List.length_replicate, ih]

theorem marks_eq_replicate {chunks : List Chunk} (h : ∀ c ∈ chunks, c.inDocument = false) :
    marks chunks = List.replicate (bytes chunks).length false := by
  induction chunks with
  | nil => rfl
  | cons c chunks ih =>
    obtain ⟨hc, hchunks⟩ := List.forall_mem_cons.mp h
    rw [marks_cons, bytes_cons, hc, ih hchunks, List.replicate_append_replicate, List.length_append]

end Chunk

namespace Sink

variable {s : Sink} {room : Nat} {bs cs : List UInt8} {text : String} {chunks chunks' : List Chunk}

def Fits (s : Sink) (n : Nat) : Prop := ∀ room ∈ s.room, n ≤ room

/-- The sink behind bytes that it has taken. -/
def after (s : Sink) (bs : List UInt8) : Sink :=
  { s with room := s.room.map (· - bs.length), taken := s.taken ++ bs }

def failure (s : Sink) (inDocument : Bool) : Failure :=
  if inDocument then .json (.refused s.refusal) else .stream (.refused s.refusal)

theorem fits_unbounded (n : Nat) : unbounded.Fits n := nofun

theorem fits_bounded_iff {n m : Nat} {refusal : String} : (bounded n refusal).Fits m ↔ m ≤ n := by
  simp [Fits, bounded]

theorem not_fits_iff {n : Nat} : ¬ s.Fits n ↔ ∃ room, s.room = some room ∧ room < n := by
  simp [Fits]

@[simp] theorem refusal_after : (s.after bs).refusal = s.refusal := rfl

@[simp] theorem failure_after (inDocument : Bool) :
    (s.after bs).failure inDocument = s.failure inDocument := rfl

theorem room_after (h : s.room = some room) : (s.after bs).room = some (room - bs.length) := by
  rw [after, h, Option.map_some]

@[simp] theorem toList_taken_after : (s.after bs).taken.toList = s.taken.toList ++ bs := by
  simp [after]

@[simp] theorem after_nil (s : Sink) : s.after [] = s := by
  simp [after]

theorem after_after (s : Sink) (bs cs : List UInt8) : (s.after bs).after cs = s.after (bs ++ cs) := by
  simp only [after, Option.map_map, Function.comp_def, Nat.sub_sub, List.length_append]
  congr 1
  exact Array.toList_inj.mp (by simp)

theorem fits_append_iff :
    s.Fits (bs ++ cs).length ↔ s.Fits bs.length ∧ (s.after bs).Fits cs.length := by
  obtain ⟨room, taken, refusal⟩ := s
  cases room with
  | none => simp [Fits, after]
  | some room =>
    simp only [Fits, after, List.length_append, Option.map_some, Option.mem_def, Option.some.injEq,
      forall_eq']
    omega

/-! ## One text -/

theorem write_of_fits (h : s.Fits (Text.bytes text).length) :
    s.write text = (s.after (Text.bytes text), .ok ()) := by
  obtain ⟨room, taken, refusal⟩ := s
  cases room with
  | none => rfl
  | some room =>
    have hle : (Text.bytes text).length ≤ room := h room rfl
    simp [write, after, hle]

theorem write_of_lt (hroom : s.room = some room) (h : room < (Text.bytes text).length) :
    s.write text = (s.after ((Text.bytes text).take room), .error (.refused s.refusal)) := by
  have hlength : ((Text.bytes text).take room).length = room :=
    List.length_take_of_le (Nat.le_of_lt h)
  simp [write, after, hroom, Nat.not_le.mpr h, hlength]

/-! ## Chunks -/

theorem writeChunks_of_fits (h : s.Fits (Chunk.bytes chunks).length) :
    s.writeChunks chunks = (s.after (Chunk.bytes chunks), .ok ()) := by
  induction chunks generalizing s with
  | nil => rw [writeChunks, Chunk.bytes, List.flatMap_nil, after_nil]
  | cons c chunks ih =>
    rw [Chunk.bytes_cons] at h ⊢
    obtain ⟨hfirst, hrest⟩ := fits_append_iff.mp h
    rw [writeChunks, write_of_fits hfirst]
    dsimp only
    rw [ih hrest, after_after]

/-- The first byte that does not fit decides what is taken and what the failure says. -/
theorem writeChunks_of_refused {inDocument : Bool} (hroom : s.room = some room)
    (h : (Chunk.marks chunks)[room]? = some inDocument) :
    s.writeChunks chunks =
      (s.after ((Chunk.bytes chunks).take room), .error (s.failure inDocument)) := by
  induction chunks generalizing s room with
  | nil => cases h
  | cons c chunks ih =>
    rw [Chunk.marks_cons] at h
    rw [Chunk.bytes_cons]
    by_cases hfits : (Text.bytes c.text).length ≤ room
    · have hfirst : s.Fits (Text.bytes c.text).length := by
        rintro _ hmem
        rwa [← Option.some.inj (hroom.symm.trans hmem)]
      rw [List.getElem?_append_right (by simpa using hfits), List.length_replicate] at h
      rw [writeChunks, write_of_fits hfirst]
      dsimp only
      rw [ih (room_after hroom) h, after_after, List.take_append, List.take_of_length_le hfits,
        failure_after]
    · have hlt : room < (Text.bytes c.text).length := Nat.lt_of_not_le hfits
      rw [List.getElem?_append_left (by simpa using hlt), List.getElem?_replicate_of_lt hlt] at h
      cases h
      rw [writeChunks, write_of_lt hroom hlt]
      dsimp only
      rw [List.take_append_of_le_length (Nat.le_of_lt hlt)]
      rfl

/-- A text may be written in one go or in parts, as long as the documents are the same. -/
theorem writeChunks_congr (hbytes : Chunk.bytes chunks = Chunk.bytes chunks')
    (hmarks : Chunk.marks chunks = Chunk.marks chunks') :
    s.writeChunks chunks = s.writeChunks chunks' := by
  by_cases hfits : s.Fits (Chunk.bytes chunks).length
  · rw [writeChunks_of_fits hfits, writeChunks_of_fits (hbytes ▸ hfits), hbytes]
  · obtain ⟨room, hroom, hlt⟩ := not_fits_iff.mp hfits
    rw [← Chunk.length_marks] at hlt
    obtain ⟨mark, hmark⟩ : ∃ mark, (Chunk.marks chunks)[room]? = some mark :=
      ⟨_, List.getElem?_eq_getElem hlt⟩
    rw [writeChunks_of_refused hroom hmark, writeChunks_of_refused hroom (hmarks ▸ hmark), hbytes]

/-! ## Expressions -/

theorem bytes_chunks (format : Format) (e : Expression) :
    Chunk.bytes (format.chunks e) = Text.bytes (format.render e) := Chunk.bytes_eq _

theorem inDocument_of_mem_chunks {format : Format} {e : Expression} (h : format ≠ .json) :
    ∀ c ∈ format.chunks e, c.inDocument = false := by
  cases format with
  | tree => simp [Format.chunks]
  | debug => simp [Format.chunks]
  | json => contradiction

/-- But for JSON, a rendering might as well be written in one go. -/
theorem writeExpression_eq_writeChunks_render {format : Format} (h : format ≠ .json) (s : Sink)
    (e : Expression) : s.writeExpression format e = s.writeChunks [⟨format.render e, false⟩] := by
  have hbytes : Chunk.bytes (format.chunks e) = Chunk.bytes [⟨format.render e, false⟩] := by
    rw [bytes_chunks, Chunk.bytes, List.flatMap_singleton]
  refine writeChunks_congr hbytes ?_
  rw [Chunk.marks_eq_replicate (inDocument_of_mem_chunks h),
    Chunk.marks_eq_replicate (List.forall_mem_singleton.mpr rfl), hbytes]

/-- Only JSON has documents, and the line break behind one is not part of it. -/
theorem getElem?_marks_chunks (format : Format) (e : Expression) {n : Nat}
    (h : n < (Text.bytes (format.render e)).length) :
    (Chunk.marks (format.chunks e))[n]? =
      some (decide (format = .json ∧ n < (Text.bytes e.toJson).length)) := by
  rw [← bytes_chunks] at h
  by_cases hformat : format = .json
  · subst hformat
    simp only [Format.chunks, Chunk.marks, Chunk.bytes, List.flatMap_cons, List.flatMap_nil,
      List.append_nil, List.length_append] at h ⊢
    by_cases hdocument : n < (Text.bytes e.toJson).length
    · rw [List.getElem?_append_left (by rwa [List.length_replicate]),
        List.getElem?_replicate_of_lt hdocument]
      simp [hdocument]
    · rw [List.getElem?_append_right (by simpa using hdocument), List.length_replicate,
        List.getElem?_replicate_of_lt (by omega)]
      simp [hdocument]
  · rw [Chunk.marks_eq_replicate (inDocument_of_mem_chunks hformat), List.getElem?_replicate_of_lt h]
    simp [hformat]

theorem writeExpression_of_fits {format : Format} {e : Expression}
    (h : s.Fits (Text.bytes (format.render e)).length) :
    s.writeExpression format e = (s.after (Text.bytes (format.render e)), .ok ()) := by
  rw [← bytes_chunks] at h ⊢
  exact writeChunks_of_fits h

theorem writeExpression_of_lt {format : Format} {e : Expression} (hroom : s.room = some room)
    (h : room < (Text.bytes (format.render e)).length) :
    s.writeExpression format e =
      (s.after ((Text.bytes (format.render e)).take room),
        .error (s.failure (format = .json ∧ room < (Text.bytes e.toJson).length))) := by
  have hmark := getElem?_marks_chunks format e h
  rw [← bytes_chunks]
  exact writeChunks_of_refused hroom hmark

end Sink

end LicenseExpr
