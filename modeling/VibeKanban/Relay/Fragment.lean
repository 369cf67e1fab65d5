import VibeKanban.Lib.Chunks

/-! Messages on the data channel: cut into chunks, written one after the other, and put together
again by the receiver. -/
namespace VibeKanban.Relay
open Lib

def chunkPayloadSize : ℕ := 60 * 1024

def bitfieldMore : UInt8 := 0b00000110

def bitfieldEnd : UInt8 := 0b00000111

def fragment (data : List UInt8) : List (List UInt8) :=
  if data.length ≤ chunkPayloadSize then [bitfieldEnd :: data]
  else
    let pieces := chunks chunkPayloadSize data
    let lastIdx := pieces.length - 1
    pieces.zipIdx.map fun (payload, i) =>
      (if i = lastIdx then bitfieldEnd else bitfieldMore) :: payload

structure Defragmenter where
  buffer : List UInt8
  deriving DecidableEq, Repr

namespace Defragmenter

def new : Defragmenter := ⟨[]⟩

/-- An incoming chunk, and the message that it completes. -/
def process (d : Defragmenter) : List UInt8 → Defragmenter × Option (List UInt8)
  | [] => (d, none)
  | header :: payload =>
    let isEnd := header &&& 0x01 != 0
    if d.buffer.isEmpty && isEnd then (d, some payload)
    else
      let buffer := d.buffer ++ payload
      if isEnd then (⟨[]⟩, some buffer) else (⟨buffer⟩, none)

def receive (d : Defragmenter) : List (List UInt8) → Defragmenter × List (List UInt8)
  | [] => (d, [])
  | chunk :: rest =>
    let (next, message) := d.process chunk
    let (last, messages) := next.receive rest
    (last, message.toList ++ messages)

end Defragmenter

/-- The writer sends the chunks of a message until a send fails. -/
def writeChunks (succeeds : ℕ → Bool) : List (List UInt8) → List (List UInt8)
  | [] => []
  | chunk :: rest =>
    if succeeds 0 then chunk :: writeChunks (fun i => succeeds (i + 1)) rest else []

/-- A message that the writer takes, and which of its sends would succeed. -/
structure Attempt where
  data : List UInt8
  succeeds : ℕ → Bool

namespace Attempt

def Complete (a : Attempt) : Prop := ∀ i < (fragment a.data).length, a.succeeds i = true

/-- Some chunks are sent, but not all of them. -/
def Interrupted (a : Attempt) : Prop := a.succeeds 0 = true ∧ ¬ a.Complete

instance (a : Attempt) : Decidable a.Complete := inferInstanceAs (Decidable (∀ i < _, _))

end Attempt

def arrived (attempts : List Attempt) : List (List UInt8) :=
  attempts.flatMap fun a => writeChunks a.succeeds (fragment a.data)

def delivered (attempts : List Attempt) : List (List UInt8) :=
  (Defragmenter.new.receive (arrived attempts)).2

/-- The messages that were written to the end, in order. -/
def completed (attempts : List Attempt) : List (List UInt8) :=
  (attempts.filter fun a => a.Complete).map (·.data)

/-- No message is written to the end after another one has been interrupted. -/
def Uninterrupted (attempts : List Attempt) : Prop :=
  attempts.Pairwise fun a b => a.Interrupted → ¬ b.Complete

theorem chunkPayloadSize_pos : 0 < chunkPayloadSize := by decide

/-- The last piece gets the one header, all others get the other. -/
theorem frame_append (pieces : List (List UInt8)) (last : List UInt8) :
    ((pieces ++ [last]).zipIdx.map fun (payload, i) =>
      (if i = (pieces ++ [last]).length - 1 then bitfieldEnd else bitfieldMore) :: payload) =
      pieces.map (bitfieldMore :: ·) ++ [bitfieldEnd :: last] := by
  refine List.ext_getElem (by simp) fun i hi _ => ?_
  have hlen : i < pieces.length + 1 := by simpa using hi
  by_cases hlast : i = pieces.length
  · subst hlast
    simp
  · have hlt : i < pieces.length := by omega
    simp [List.getElem_append_left hlt, hlt, hlast]

/-- The chunks of a message: nonempty pieces that are to be continued, and the last one. -/
theorem fragment_shape (data : List UInt8) :
    ∃ (pieces : List (List UInt8)) (last : List UInt8),
      fragment data = pieces.map (bitfieldMore :: ·) ++ [bitfieldEnd :: last] ∧
      pieces.flatten ++ last = data ∧ (∀ piece ∈ pieces, piece ≠ []) ∧
      (∀ piece ∈ pieces, piece.length ≤ chunkPayloadSize) ∧ last.length ≤ chunkPayloadSize := by
  unfold fragment
  split_ifs with hsmall
  · exact ⟨[], data, rfl, rfl, by simp, by simp, hsmall⟩
  have hdata : data ≠ [] := by
    rintro rfl
    exact hsmall (Nat.zero_le _)
  have hne := chunks_ne_nil chunkPayloadSize_pos hdata
  have hsplit := List.dropLast_append_getLast hne
  have hpieces : ∀ piece ∈ (chunks chunkPayloadSize data).dropLast,
      piece ∈ chunks chunkPayloadSize data := fun piece h => List.dropLast_subset _ h
  refine ⟨(chunks chunkPayloadSize data).dropLast, (chunks chunkPayloadSize data).getLast hne, ?_, ?_,
    fun piece h => (mem_chunks (hpieces piece h)).1, fun piece h => (mem_chunks (hpieces piece h)).2,
    (mem_chunks (List.getLast_mem hne)).2⟩
  · have hframe := frame_append (chunks chunkPayloadSize data).dropLast
      ((chunks chunkPayloadSize data).getLast hne)
    rw [hsplit] at hframe
    exact hframe
  · have hflat := chunks_flatten chunkPayloadSize_pos data
    rw [← hsplit, List.flatten_append] at hflat
    simpa using hflat

namespace Defragmenter
variable {buffer : List UInt8}

theorem receive_append (d : Defragmenter) (before later : List (List UInt8)) :
    d.receive (before ++ later) =
      (((d.receive before).1.receive later).1,
        (d.receive before).2 ++ ((d.receive before).1.receive later).2) := by
  induction before generalizing d with
  | nil => rfl
  | cons chunk rest ih =>
    simp only [List.cons_append, receive, ih, List.append_assoc]

theorem process_more (payload : List UInt8) :
    process ⟨buffer⟩ (bitfieldMore :: payload) = (⟨buffer ++ payload⟩, none) := by
  have hflag : (bitfieldMore &&& 0x01 != 0) = false := by decide
  simp [process, hflag]

theorem process_end (payload : List UInt8) :
    process ⟨buffer⟩ (bitfieldEnd :: payload) = (⟨[]⟩, some (buffer ++ payload)) := by
  have hflag : (bitfieldEnd &&& 0x01 != 0) = true := by decide
  cases buffer with
  | nil => simp [process, hflag]
  | cons byte rest => simp [process, hflag]

theorem receive_more (pieces : List (List UInt8)) :
    receive ⟨buffer⟩ (pieces.map (bitfieldMore :: ·)) = (⟨buffer ++ pieces.flatten⟩, []) := by
  induction pieces generalizing buffer with
  | nil => simp [receive]
  | cons piece rest ih =>
    simp only [List.map_cons, receive, process_more, ih, List.flatten_cons, List.append_assoc]
    rfl

theorem receive_fragment (data : List UInt8) :
    receive ⟨buffer⟩ (fragment data) = (⟨[]⟩, [buffer ++ data]) := by
  obtain ⟨pieces, last, hfragment, hdata, _⟩ := fragment_shape data
  rw [hfragment, receive_append, receive_more]
  simp only [receive, process_end, List.nil_append]
  rw [← hdata, List.append_assoc]
  rfl

/-- The first chunks of a message stay in the buffer. -/
theorem receive_take_fragment (buffer : List UInt8) {data : List UInt8} {n : ℕ} (hn : n < (fragment data).length) :
    ∃ kept, receive ⟨buffer⟩ ((fragment data).take n) = (⟨buffer ++ kept⟩, []) ∧
      (kept = [] ↔ n = 0) := by
  obtain ⟨pieces, last, hfragment, _, hne, _⟩ := fragment_shape data
  have hle : n ≤ pieces.length := by
    rw [hfragment] at hn
    simp only [List.length_append, List.length_map, List.length_singleton] at hn
    omega
  have htake : (fragment data).take n = (pieces.take n).map (bitfieldMore :: ·) := by
    rw [hfragment, List.take_append_of_le_length (by simpa using hle), List.map_take]
  refine ⟨(pieces.take n).flatten, by rw [htake, receive_more], ?_⟩
  cases n with
  | zero => simp
  | succ n =>
    cases pieces with
    | nil => simp at hle
    | cons piece rest =>
      have hpiece := hne piece List.mem_cons_self
      simp [hpiece]

end Defragmenter

/-- What arrives of a message is its first chunks. -/
theorem writeChunks_eq_take (succeeds : ℕ → Bool) (l : List (List UInt8)) :
    ∃ n ≤ l.length, writeChunks succeeds l = l.take n ∧ (∀ i < n, succeeds i = true) ∧
      (n < l.length → succeeds n = false) := by
  induction l generalizing succeeds with
  | nil => exact ⟨0, Nat.le_refl _, rfl, by simp, by simp⟩
  | cons chunk rest ih =>
    cases hfirst : succeeds 0 with
    | false => exact ⟨0, Nat.zero_le _, by simp [writeChunks, hfirst], by simp, fun _ => hfirst⟩
    | true =>
      obtain ⟨n, hn, hwrite, hsent, hfailed⟩ := ih fun i => succeeds (i + 1)
      refine ⟨n + 1, by simpa using hn, by simp [writeChunks, hfirst, hwrite], ?_, ?_⟩
      · intro i hi
        cases i with
        | zero => exact hfirst
        | succ i => exact hsent i (by omega)
      · intro hlt
        exact hfailed (by simpa using hlt)

namespace Attempt
variable {a : Attempt}

theorem receive_complete (buffer : List UInt8) (h : a.Complete) :
    Defragmenter.receive ⟨buffer⟩ (writeChunks a.succeeds (fragment a.data)) =
      (⟨[]⟩, [buffer ++ a.data]) := by
  obtain ⟨n, hn, hwrite, _, hfailed⟩ := writeChunks_eq_take a.succeeds (fragment a.data)
  have hall : n = (fragment a.data).length := by
    by_contra hne
    have hlt : n < (fragment a.data).length := by omega
    have hsent := h n hlt
    rw [hfailed hlt] at hsent
    cases hsent
  rw [hwrite, hall, List.take_length]
  exact Defragmenter.receive_fragment a.data

/-- Of a message that is abandoned the receiver keeps what has arrived. -/
theorem receive_abandoned (buffer : List UInt8) (h : ¬ a.Complete) :
    ∃ kept, Defragmenter.receive ⟨buffer⟩ (writeChunks a.succeeds (fragment a.data)) =
        (⟨buffer ++ kept⟩, []) ∧ (kept ≠ [] ↔ a.Interrupted) := by
  obtain ⟨n, hn, hwrite, hsent, hfailed⟩ := writeChunks_eq_take a.succeeds (fragment a.data)
  have hlt : n < (fragment a.data).length := by
    by_contra hle
    exact h fun i hi => hsent i (by omega)
  obtain ⟨kept, hreceive, hkept⟩ := Defragmenter.receive_take_fragment buffer hlt
  refine ⟨kept, by rw [hwrite]; exact hreceive, ?_⟩
  rw [Ne, hkept]
  constructor
  · intro hpos
    exact ⟨hsent 0 (by omega), h⟩
  · rintro ⟨hfirst, _⟩ rfl
    rw [hfailed hlt] at hfirst
    cases hfirst

end Attempt

/-- What is delivered from a buffer on. -/
theorem receive_arrived (buffer : List UInt8) (attempts : List Attempt) :
    (Defragmenter.receive ⟨buffer⟩ (arrived attempts)).2 = completed attempts ↔
      (buffer ≠ [] → ∀ a ∈ attempts, ¬ a.Complete) ∧ Uninterrupted attempts := by
  induction attempts generalizing buffer with
  | nil => simp [arrived, completed, Uninterrupted, Defragmenter.receive]
  | cons a rest ih =>
    have hsplit : arrived (a :: rest) =
        writeChunks a.succeeds (fragment a.data) ++ arrived rest := List.flatMap_cons
    rw [hsplit, Defragmenter.receive_append, Uninterrupted, List.pairwise_cons]
    by_cases hcomplete : a.Complete
    · have hcompleted : completed (a :: rest) = a.data :: completed rest := by
        simp [completed, hcomplete]
      rw [a.receive_complete buffer hcomplete, hcompleted]
      have hrest := ih []
      have hfirst : buffer ++ a.data = a.data ↔ buffer = [] := by simp
      constructor
      · intro heq
        obtain ⟨hdata, hlater⟩ := List.cons.inj heq
        obtain rfl := hfirst.mp hdata
        refine ⟨fun h => absurd rfl h, fun _ _ hinterrupted => absurd hcomplete hinterrupted.2, ?_⟩
        exact (hrest.mp hlater).2
      · rintro ⟨hbuffer, _, hpairs⟩
        have hnil : buffer = [] := by
          by_contra hne
          exact hbuffer hne a List.mem_cons_self hcomplete
        subst hnil
        exact congrArg (a.data :: ·) (hrest.mpr ⟨fun h => absurd rfl h, hpairs⟩)
    · have hcompleted : completed (a :: rest) = completed rest := by
        simp [completed, hcomplete]
      obtain ⟨kept, hreceive, hkept⟩ := a.receive_abandoned buffer hcomplete
      rw [hreceive, hcompleted, List.nil_append, ih (buffer ++ kept)]
      constructor
      · rintro ⟨hlater, hpairs⟩
        refine ⟨fun hbuffer b hb => ?_, fun b hb hinterrupted => ?_, hpairs⟩
        · obtain rfl | hb := List.mem_cons.mp hb
          · exact hcomplete
          · exact hlater (by simp [hbuffer]) b hb
        · exact hlater (by simp [hkept.mpr hinterrupted]) b hb
      · rintro ⟨hbuffer, hhead, hpairs⟩
        refine ⟨fun hne b hb => ?_, hpairs⟩
        by_cases hnil : buffer = []
        · have hkeptne : kept ≠ [] := by simpa [hnil] using hne
          exact hhead b hb (hkept.mp hkeptne)
        · exact hbuffer hnil b (List.mem_cons_of_mem _ hb)

theorem receive_fragments (messages : List (List UInt8)) :
    Defragmenter.new.receive (messages.flatMap fragment) = (.new, messages) := by
  induction messages with
  | nil => rfl
  | cons data rest ih =>
    have hdata : Defragmenter.new.receive (fragment data) = (.new, [data]) :=
      Defragmenter.receive_fragment data
    rw [List.flatMap_cons, Defragmenter.receive_append, hdata, ih]
    rfl

theorem mem_fragment_length {data chunk : List UInt8} (h : chunk ∈ fragment data) :
    chunk.length ≤ 1 + chunkPayloadSize := by
  obtain ⟨pieces, last, hfragment, _, _, hpieces, hlast⟩ := fragment_shape data
  rw [hfragment] at h
  obtain h | h := List.mem_append.mp h
  · obtain ⟨piece, hpiece, rfl⟩ := List.mem_map.mp h
    have hle := hpieces piece hpiece
    rw [List.length_cons]
    omega
  · rw [List.mem_singleton.mp h, List.length_cons]
    omega

/-- The chunks of whole messages give the messages back. Where sends fail, the messages delivered are
those that were written to the end exactly when none of these follows an interrupted one. -/
theorem fragmentation_faithful (messages : List (List UInt8)) (data : List UInt8)
    (attempts : List Attempt) :
    (Defragmenter.new.receive (messages.flatMap fragment)).2 = messages ∧
      (∀ chunk ∈ fragment data, chunk.length ≤ 1 + 60 * 1024) ∧
      (delivered attempts = completed attempts ↔ Uninterrupted attempts) ∧
        (Uninterrupted attempts →
          ∀ message ∈ delivered attempts, message ∈ attempts.map (·.data)) := by
  refine ⟨by rw [receive_fragments], fun chunk => mem_fragment_length, ?_⟩
  have hexact : delivered attempts = completed attempts ↔ Uninterrupted attempts := by
    refine (receive_arrived [] attempts).trans ⟨fun h => h.2, fun h => ⟨?_, h⟩⟩
    exact fun hne => absurd rfl hne
  refine ⟨hexact, fun h message hmessage => ?_⟩
  rw [hexact.mpr h] at hmessage
  obtain ⟨a, ha, rfl⟩ := List.mem_map.mp hmessage
  exact List.mem_map_of_mem (List.mem_of_mem_filter ha)

/-- A message of zeros of two chunks, of which the second fails. -/
def zeros : Attempt := ⟨List.replicate (chunkPayloadSize + 1) 0, fun i => i == 0⟩

def one : Attempt := ⟨[1], fun _ => true⟩

theorem zeros_interrupted : zeros.Interrupted := by
  refine ⟨rfl, fun h => ?_⟩
  obtain ⟨pieces, last, hfragment, hdata, _, _, hlast⟩ := fragment_shape zeros.data
  have hlength : zeros.data.length = chunkPayloadSize + 1 := List.length_replicate
  have hpieces : 0 < pieces.length := by
    refine List.length_pos_of_ne_nil ?_
    rintro rfl
    have heq : last = zeros.data := hdata
    rw [heq] at hlast
    omega
  have hlong : 1 < (fragment zeros.data).length := by
    rw [hfragment]
    simpa using hpieces
  have hsent : zeros.succeeds 1 = true := h 1 hlong
  cases hsent

/-- The receiver delivers zeros that end with the one. -/
theorem fragmentation_mixes :
    ∃ message ∈ delivered [zeros, one], message ∉ [zeros, one].map (·.data) := by
  obtain ⟨kept, hreceive, hkept⟩ :=
    zeros.receive_abandoned [] zeros_interrupted.2
  have hne := hkept.mpr zeros_interrupted
  have hone : one.Complete := fun _ _ => rfl
  have hdelivered : delivered [zeros, one] = [kept ++ [1]] := by
    have harrived : arrived [zeros, one] = writeChunks zeros.succeeds (fragment zeros.data) ++
        writeChunks one.succeeds (fragment one.data) := by
      simp [arrived]
    rw [delivered, Defragmenter.new, harrived, Defragmenter.receive_append, hreceive,
      one.receive_complete _ hone]
    rfl
  refine ⟨kept ++ [1], by rw [hdelivered]; exact List.mem_singleton_self _, fun h => ?_⟩
  simp only [List.map_cons, List.map_nil, List.mem_cons, List.not_mem_nil, or_false] at h
  obtain hzeros | hone := h
  · have hlast : (1 : UInt8) ∈ zeros.data := by simp [← hzeros]
    have hzero : (1 : UInt8) = 0 := List.eq_of_mem_replicate hlast
    exact absurd hzero (by decide)
  · have hnil : kept = [] := by simpa [one] using hone
    exact hne hnil

end VibeKanban.Relay
