import Courier.Library.Checks
import Courier.SharedMemoryRing

/-!
# The ring is a queue

The frames of the unread messages stand in the region from the tail on (`Holds`), so messages are read in order and a
write is refused exactly if not one byte would stay free (`fifo_of_run`), until the sequence number is at its end.
-/

namespace Courier.SharedMemoryRing

open Memory

/-! ### Frames -/

def frame (message : Bytes) : Bytes :=
  bigEndian 4 message.length ++ message

def frames (messages : List Bytes) : Bytes :=
  messages.flatMap frame

def held (messages : List Bytes) : Nat :=
  (messages.map fun m => m.length + 4).sum

@[simp]
theorem held_nil :
  held [] = 0
  := rfl

@[simp]
theorem held_cons (m : Bytes) (messages : List Bytes) :
  held (m :: messages) = m.length + 4 + held messages
  := rfl

theorem held_concat (messages : List Bytes) (m : Bytes) :
  held (messages ++ [m]) = held messages + (m.length + 4)
  := by
  simp [held]

theorem frames_concat (messages : List Bytes) (m : Bytes) :
  frames (messages ++ [m]) = frames messages ++ frame m
  := by
  simp [frames]

@[simp]
theorem length_frame (m : Bytes) :
  (frame m).length = m.length + 4
  := by
  rw [frame, List.length_append, length_bigEndian, Nat.add_comm]

/-! ### What a segment holds -/

/-- The segment holds the unread messages, from `tail` on, and the sequence number. -/
structure Holds (buf : Bytes) (capacity tail : Nat) (messages : List Bytes) (seq : Nat) : Prop where
  size : HEADER_SIZE + capacity ≤ buf.length
  fits : capacity < 256 ^ 4
  magic : slice buf 0 4 = MAGIC
  version : ofBytes (slice buf 4 2) = VERSION
  header : readHeader buf = ⟨capacity, (tail + held messages) % capacity, tail, seq⟩
  start : tail = 0 ∨ tail < capacity
  room : messages ≠ [] → held messages < capacity
  content : window buf HEADER_SIZE capacity tail (held messages) = (frames messages).map some

variable {buf : Bytes} {capacity tail seq : Nat} {messages : List Bytes}

theorem Holds.valid (h : Holds buf capacity tail messages seq) :
  validateHeader buf = .ok ()
  := by
  have hsize := h.size
  rw [validateHeader, if_neg (by omega), if_neg (not_not.mpr h.magic), if_neg (not_not.mpr h.version)]

theorem pack_eq_ok {k n : Nat} (h : n < 256 ^ k) :
  pack k n = .ok (bigEndian k n)
  := if_pos h

theorem slices_of_header (n : Nat) (header : Bytes)
    (h : header = MAGIC ++ bigEndian 2 VERSION ++ bigEndian 4 n ++ bigEndian 4 0 ++ bigEndian 4 0 ++
      bigEndian 8 0) :
  header.length = 26 ∧ slice header 0 4 = MAGIC ∧ slice header 4 2 = bigEndian 2 VERSION ∧
    slice header 6 4 = bigEndian 4 n ∧ slice header 10 4 = bigEndian 4 0 ∧
    slice header 14 4 = bigEndian 4 0 ∧ slice header 18 8 = bigEndian 8 0
  := by
  simp only [List.append_assoc] at h
  have hpart : ∀ before cells after : Bytes, header = before ++ (cells ++ after) →
      slice header before.length cells.length = cells := by
    intro before cells after heq
    rw [heq]
    exact slice_append before cells after
  refine ⟨?_, ?_, ?_, ?_, ?_, ?_, ?_⟩
  · rw [h]
    simp [MAGIC]
  · simpa [MAGIC] using hpart [] MAGIC _ (by rw [h, List.nil_append])
  · simpa [MAGIC] using hpart MAGIC (bigEndian 2 VERSION) _ h
  · simpa [MAGIC] using hpart (MAGIC ++ bigEndian 2 VERSION) (bigEndian 4 n)
      (bigEndian 4 0 ++ (bigEndian 4 0 ++ bigEndian 8 0)) (by simp only [h, List.append_assoc])
  · simpa [MAGIC] using hpart (MAGIC ++ bigEndian 2 VERSION ++ bigEndian 4 n) (bigEndian 4 0)
      (bigEndian 4 0 ++ bigEndian 8 0) (by simp only [h, List.append_assoc])
  · simpa [MAGIC] using hpart (MAGIC ++ bigEndian 2 VERSION ++ bigEndian 4 n ++ bigEndian 4 0)
      (bigEndian 4 0) (bigEndian 8 0) (by simp only [h, List.append_assoc])
  · simpa [MAGIC] using
      hpart (MAGIC ++ bigEndian 2 VERSION ++ bigEndian 4 n ++ bigEndian 4 0 ++ bigEndian 4 0)
        (bigEndian 8 0) [] (by simp only [h, List.append_assoc, List.append_nil])

/-- A new segment holds no message. -/
theorem holds_create {capacity : Int} {slack : Nat} (h : create capacity slack = .ok buf) :
  0 ≤ capacity ∧ Holds buf capacity.toNat 0 [] 0
  := by
  rw [create] at h
  split_ifs at h with hsize
  obtain ⟨size, hpack, hbuf⟩ := Except.bind_eq_ok.mp h
  cases capacity with
  | negSucc n => cases hpack
  | ofNat n =>
    rw [pack] at hpack
    split_ifs at hpack with hfits
    cases hpack
    generalize hheader : MAGIC ++ bigEndian 2 VERSION ++ bigEndian 4 n ++ bigEndian 4 0 ++
      bigEndian 4 0 ++ bigEndian 8 0 = header at hbuf
    generalize hzeros : List.replicate ((HEADER_SIZE + Int.ofNat n).toNat + slack) (0 : UInt8) = zeros
      at hbuf
    obtain ⟨hlength, hmagic, hversion, hcapacity, hhead, htail, hseq⟩ :=
      slices_of_header n header hheader.symm
    have hzerosLength : zeros.length = 32 + n + slack := by
      rw [← hzeros, List.length_replicate, HEADER_SIZE]
      rfl
    have hbuf' : buf = splice (splice zeros 0 header) HEADER_RAW_SIZE
        (List.replicate (HEADER_SIZE - HEADER_RAW_SIZE) 0) := by
      cases hbuf
      rfl
    have hraw : HEADER_RAW_SIZE = 26 := rfl
    have hpadding : (List.replicate (HEADER_SIZE - HEADER_RAW_SIZE) (0 : UInt8)).length = 6 := rfl
    have hfirst : (splice zeros 0 header).length = zeros.length := length_splice (by omega)
    have hslice : ∀ k m, k + m ≤ 26 → slice buf k m = slice header k m := by
      intro k m hk
      rw [hbuf', slice_splice_of_disjoint (by rw [hfirst, hpadding]; omega) (.inl (by omega))]
      simpa using @slice_splice_within _ zeros 0 header (by omega) k m (by omega)
    refine ⟨Int.natCast_nonneg n, ?_⟩
    exact {
      size := by
        rw [hbuf', length_splice (by rw [hfirst, hpadding]; omega), hfirst, hzerosLength]
        exact Nat.le_add_right _ _
      fits := hfits
      magic := by rw [hslice 0 4 (by omega), hmagic]
      version := by rw [hslice 4 2 (by omega), hversion, ofBytes_bigEndian (by decide)]
      header := by
        rw [readHeader, hslice 6 4 (by omega), hslice 10 4 (by omega), hslice 14 4 (by omega),
          hslice 18 8 (by omega), hcapacity, hhead, htail, hseq, ofBytes_bigEndian hfits]
        simp [ofBytes_bigEndian]
      start := .inl rfl
      room := fun hne => absurd rfl hne
      content := rfl }

theorem Holds.held_lt (h : Holds buf capacity tail messages seq) :
  held messages < capacity ∨ messages = [] ∧ held messages = 0
  := by
  cases messages with
  | nil => exact .inr ⟨rfl, rfl⟩
  | cons m messages => exact .inl (h.room (List.cons_ne_nil m messages))

theorem Holds.availableReadBytes_eq (h : Holds buf capacity tail messages seq) :
  availableReadBytes buf = held messages
  := by
  rw [availableReadBytes, h.header]
  dsimp only
  rcases h.start with rfl | htail
  · rcases h.held_lt with hlt | ⟨-, hzero⟩
    · rw [Nat.zero_add, Nat.mod_eq_of_lt hlt, if_pos (Nat.zero_le _)]
      simp
    · rw [hzero]
      simp
  · have hlt : held messages < capacity := by
      rcases h.held_lt with hlt | ⟨-, hzero⟩
      · exact hlt
      · omega
    rw [mod_of_lt htail hlt]
    by_cases hend : tail + held messages < capacity
    · rw [if_pos hend, if_pos (by omega)]
      push_cast
      omega
    · rw [if_neg hend, if_neg (by omega)]
      omega

/-! ### Writing -/

def refused : Answer → Bool
  | .wrote (.error (.bufferFull _)) => true
  | .wrote (.error (.messageTooLarge _)) => true
  | _ => false

@[simp]
theorem refused_messageTooLarge (message : Str) :
  refused (.wrote (.error (.messageTooLarge message))) = true
  := rfl

@[simp]
theorem refused_bufferFull (message : Str) :
  refused (.wrote (.error (.bufferFull message))) = true
  := rfl

theorem write_of_tooLarge {data : Bytes}
    (h : ((readHeader buf).capacity : Int) - 1 < (4 + data.length : Nat)) :
  write buf data = (.error (tooLarge (4 + data.length) (readHeader buf).capacity), buf)
  := if_pos h

theorem write_of_full {data : Bytes}
    (hfits : ¬((readHeader buf).capacity : Int) - 1 < (4 + data.length : Nat))
    (h : availableWriteBytes buf < (4 + data.length : Nat)) :
  write buf data = (.error (full (4 + data.length) (availableWriteBytes buf)), buf)
  := by
  rw [write, if_neg hfits, if_pos h]

theorem write_refused (h : Holds buf capacity tail messages seq) (data : Bytes)
    (hfull : (capacity : Int) - 1 - held messages < data.length + 4) :
  refused (.wrote (write buf data).1) = true ∧ (write buf data).2 = buf
  := by
  have hcapacity : (readHeader buf).capacity = capacity := by rw [h.header]
  have havailable : availableWriteBytes buf = max 0 ((capacity : Int) - 1 - held messages) := by
    rw [availableWriteBytes, h.availableReadBytes_eq, hcapacity]
  by_cases hlarge : ((readHeader buf).capacity : Int) - 1 < (4 + data.length : Nat)
  · rw [write_of_tooLarge hlarge]
    exact ⟨refused_messageTooLarge _, rfl⟩
  · rw [write_of_full hlarge (by rw [havailable]; push_cast; omega)]
    exact ⟨refused_bufferFull _, rfl⟩

theorem write_of_room {data : Bytes} (hlength : data.length < 256 ^ 4)
    (hfits : ¬((readHeader buf).capacity : Int) - 1 < (4 + data.length : Nat))
    (hroom : ¬availableWriteBytes buf < (4 + data.length : Nat)) :
  write buf data =
    ((updateHead
        (writeCircular buf HEADER_SIZE (readHeader buf).capacity (readHeader buf).head (frame data))
        (((readHeader buf).head + (4 + data.length)) % (readHeader buf).capacity)
        ((readHeader buf).seq + 1)).1.map fun _ => (readHeader buf).seq + 1,
      (updateHead
        (writeCircular buf HEADER_SIZE (readHeader buf).capacity (readHeader buf).head (frame data))
        (((readHeader buf).head + (4 + data.length)) % (readHeader buf).capacity)
        ((readHeader buf).seq + 1)).2)
  := by
  rw [write, if_neg hfits, if_neg hroom, pack_eq_ok (k := 4) hlength]
  dsimp only [frame]

theorem updateHead_eq {head : Nat} (hhead : head < 256 ^ 4) (seq : Nat) :
  updateHead buf head seq =
    if seq < 256 ^ 8 then
      (.ok (), splice (splice buf 10 (bigEndian 4 head)) 18 (bigEndian 8 seq))
    else (.error .structError, splice buf 10 (bigEndian 4 head))
  := by
  by_cases hseq : seq < 256 ^ 8
  · rw [if_pos hseq, updateHead, pack_eq_ok (k := 4) hhead]
    dsimp only
    rw [pack_eq_ok (k := 8) hseq]
  · have hpack : pack 8 seq = .error .structError := if_neg hseq
    rw [if_neg hseq, updateHead, pack_eq_ok (k := 4) hhead]
    dsimp only
    rw [hpack]

/-- The segment after a message was put behind the others. -/
theorem Holds.append (h : Holds buf capacity tail messages seq) {data : Bytes}
    (hroom : held messages + (data.length + 4) < capacity) (hseq : seq + 1 < 256 ^ 8) :
  Holds
    (splice
      (splice
        (writeCircular buf HEADER_SIZE capacity ((tail + held messages) % capacity) (frame data))
        10 (bigEndian 4 (((tail + held messages) % capacity + (4 + data.length)) % capacity)))
      18 (bigEndian 8 (seq + 1)))
    capacity tail (messages ++ [data]) (seq + 1)
  := by
  have hsize : HEADER_SIZE + capacity ≤ buf.length := h.size
  have hheader : HEADER_SIZE = 32 := rfl
  have htail : tail < capacity := by
    rcases h.start with rfl | hlt
    · omega
    · exact hlt
  have hhead : (tail + held messages) % capacity < capacity := Nat.mod_lt _ (by omega)
  have hnew : ((tail + held messages) % capacity + (4 + data.length)) % capacity < 256 ^ 4 :=
    (Nat.mod_lt _ (by omega)).trans h.fits
  have hframe : (frame data).length ≤ capacity := by
    rw [length_frame]
    omega
  have hwritten := @length_writeCircular _ _ _ _ _ (frame data) hsize hhead hframe
  generalize hw : writeCircular buf HEADER_SIZE capacity ((tail + held messages) % capacity)
    (frame data) = written at hwritten ⊢
  have hfirst : ∀ n, (splice written 10 (bigEndian 4 n)).length = written.length := by
    intro n
    exact length_splice (by rw [length_bigEndian]; omega)
  have hold : ∀ k n, k + n ≤ HEADER_SIZE → slice written k n = slice buf k n := by
    intro k n hk
    rw [← hw]
    exact slice_writeCircular hsize hhead hframe hk
  have hslice : ∀ k n, k + n ≤ 10 ∨ 14 ≤ k ∧ k + n ≤ 18 →
      slice (splice (splice written 10
        (bigEndian 4 (((tail + held messages) % capacity + (4 + data.length)) % capacity))) 18
        (bigEndian 8 (seq + 1))) k n = slice buf k n := by
    intro k n hk
    rw [slice_splice_of_disjoint (by rw [hfirst, length_bigEndian]; omega)
        (.inl (by omega)),
      slice_splice_of_disjoint (by rw [length_bigEndian]; omega)
        (by rw [length_bigEndian]; omega),
      hold k n (by omega)]
  have hfields := h.header
  rw [readHeader, Header.mk.injEq] at hfields
  obtain ⟨hcapacity, -, htailField, -⟩ := hfields
  exact {
    size := by
      rw [length_splice (by rw [hfirst, length_bigEndian]; omega), hfirst, hwritten]
      exact hsize
    fits := h.fits
    magic := by
      rw [hslice 0 4 (by omega)]
      exact h.magic
    version := by
      rw [hslice 4 2 (by omega)]
      exact h.version
    header := by
      rw [readHeader, Header.mk.injEq]
      refine ⟨?_, ?_, ?_, ?_⟩
      · rw [hslice 6 4 (by omega)]
        exact hcapacity
      · have hself := @slice_splice_self _ written 10
          (bigEndian 4 (((tail + held messages) % capacity + (4 + data.length)) % capacity))
          (by rw [length_bigEndian]; omega)
        rw [length_bigEndian] at hself
        rw [slice_splice_of_disjoint (by rw [hfirst, length_bigEndian]; omega) (.inl (by omega)),
          hself, ofBytes_bigEndian hnew, Nat.mod_add_mod, held_concat]
        congr 1
        omega
      · rw [hslice 14 4 (by omega)]
        exact htailField
      · have hself := @slice_splice_self _ (splice written 10
            (bigEndian 4 (((tail + held messages) % capacity + (4 + data.length)) % capacity)))
          18 (bigEndian 8 (seq + 1)) (by rw [hfirst, length_bigEndian]; omega)
        rw [length_bigEndian] at hself
        rw [hself, ofBytes_bigEndian hseq]
    start := h.start
    room := by
      intro _
      rw [held_concat]
      exact hroom
    content := by
      rw [window_splice_of_le (by rw [length_bigEndian]; omega)
          (by rw [hfirst, length_bigEndian]; omega),
        window_splice_of_le (by rw [length_bigEndian]; omega) (by rw [length_bigEndian]; omega),
        held_concat, ← length_frame data, ← hw, window_writeCircular hsize htail
          (by rw [length_frame]; omega), h.content, frames_concat, List.map_append] }

theorem write_accepted (h : Holds buf capacity tail messages seq) (data : Bytes)
    (hroom : held messages + (data.length + 4) < capacity) :
  refused (.wrote (write buf data).1) = false ∧
    (seq + 1 < 2 ^ 64 → (write buf data).1 = .ok (seq + 1) ∧
      Holds (write buf data).2 capacity tail (messages ++ [data]) (seq + 1)) ∧
    (2 ^ 64 ≤ seq + 1 → (write buf data).1 = .error .structError)
  := by
  have hcapacity : (readHeader buf).capacity = capacity := by rw [h.header]
  have hhead : (readHeader buf).head = (tail + held messages) % capacity := by rw [h.header]
  have hseq : (readHeader buf).seq = seq := by rw [h.header]
  have hfits := h.fits
  have hwrite := @write_of_room buf data (by omega)
    (by
      rw [hcapacity]
      push_cast
      omega)
    (by
      rw [availableWriteBytes, h.availableReadBytes_eq, hcapacity]
      push_cast
      omega)
  have hnew : ((tail + held messages) % capacity + (4 + data.length)) % capacity < 256 ^ 4 :=
    (Nat.mod_lt _ (by omega)).trans hfits
  rw [hcapacity, hhead, hseq, updateHead_eq hnew] at hwrite
  have hpower : (256 : Nat) ^ 8 = 2 ^ 64 := by norm_num
  by_cases hnumber : seq + 1 < 256 ^ 8
  · rw [if_pos hnumber] at hwrite
    rw [hwrite]
    refine ⟨rfl, fun _ => ⟨rfl, h.append hroom hnumber⟩, ?_⟩
    intro hlarge
    omega
  · rw [if_neg hnumber] at hwrite
    rw [hwrite]
    refine ⟨rfl, ?_, fun _ => rfl⟩
    intro hsmall
    omega

/-! ### Reading -/

theorem read_of_nil (h : Holds buf capacity tail [] seq) :
  read buf = (.ok none, buf)
  := by
  have hempty : (readHeader buf).head = (readHeader buf).tail := by
    rw [h.header]
    rcases h.start with rfl | hlt
    · simp
    · simp [Nat.mod_eq_of_lt hlt]
  rw [read, if_pos hempty]

theorem read_of_ne (h : (readHeader buf).head ≠ (readHeader buf).tail) {message : Bytes}
    (hlength : ofBytes (readBytesCircular buf (readHeader buf).tail 4 (readHeader buf).capacity) =
      message.length)
    (hpayload : readBytesCircular buf (((readHeader buf).tail + 4) % (readHeader buf).capacity)
      message.length (readHeader buf).capacity = message)
    (hnew : ((readHeader buf).tail + 4 + message.length) % (readHeader buf).capacity < 256 ^ 4) :
  read buf = (.ok (some message), splice buf 14
    (bigEndian 4 (((readHeader buf).tail + 4 + message.length) % (readHeader buf).capacity)))
  := by
  rw [read, if_neg h, hlength]
  dsimp only
  rw [hpayload, updateTail, pack_eq_ok (k := 4) hnew]
  rfl

/-- The first message is read, and the others stay. -/
theorem read_of_cons {message : Bytes} (h : Holds buf capacity tail (message :: messages) seq) :
  (read buf).1 = .ok (some message) ∧
    Holds (read buf).2 capacity ((tail + 4 + message.length) % capacity) messages seq
  := by
  have hsize : HEADER_SIZE + capacity ≤ buf.length := h.size
  have hheader : HEADER_SIZE = 32 := rfl
  have hroom := h.room (List.cons_ne_nil message messages)
  rw [held_cons] at hroom
  have htail : tail < capacity := by
    rcases h.start with rfl | hlt
    · omega
    · exact hlt
  have hcontent := h.content
  rw [held_cons, show message.length + 4 + held messages = 4 + (message.length + held messages) by omega,
    window_add, window_add, frames, List.flatMap_cons, frame, List.append_assoc, List.map_append,
    List.map_append] at hcontent
  obtain ⟨hlengthCells, hrest⟩ := List.append_inj hcontent (by
    rw [length_window, List.length_map, length_bigEndian])
  obtain ⟨hpayloadCells, hmessages⟩ := List.append_inj hrest (by
    rw [length_window, List.length_map])
  have hne : (readHeader buf).head ≠ (readHeader buf).tail := by
    rw [h.header]
    dsimp only
    rw [held_cons, mod_of_lt htail hroom]
    split_ifs <;> omega
  have hnew : (tail + 4 + message.length) % capacity < capacity := Nat.mod_lt _ (by omega)
  have hread := @read_of_ne _ hne message
    (by
      rw [h.header]
      dsimp only
      rw [readBytesCircular, readCircular_eq hsize htail (by omega) hlengthCells,
        ofBytes_bigEndian]
      have hfits := h.fits
      omega)
    (by
      rw [h.header]
      dsimp only
      rw [readBytesCircular]
      apply readCircular_eq hsize (Nat.mod_lt _ (by omega)) (by omega)
      rw [window_mod]
      exact hpayloadCells)
    (by
      rw [h.header]
      exact hnew.trans h.fits)
  rw [h.header] at hread
  dsimp only at hread
  rw [hread]
  refine ⟨rfl, ?_⟩
  dsimp only
  have hslice : ∀ k n, k + n ≤ 14 ∨ 18 ≤ k →
      slice (splice buf 14 (bigEndian 4 ((tail + 4 + message.length) % capacity))) k n =
        slice buf k n := by
    intro k n hk
    exact slice_splice_of_disjoint (by rw [length_bigEndian]; omega)
      (by rw [length_bigEndian]; omega)
  have hself := @slice_splice_self _ buf 14
    (bigEndian 4 ((tail + 4 + message.length) % capacity)) (by rw [length_bigEndian]; omega)
  rw [length_bigEndian] at hself
  have hfields := h.header
  rw [readHeader, Header.mk.injEq] at hfields
  obtain ⟨hcapacity, hhead, -, hseq⟩ := hfields
  exact {
    size := by
      rw [length_splice (by rw [length_bigEndian]; omega)]
      exact hsize
    fits := h.fits
    magic := by
      rw [hslice 0 4 (by omega)]
      exact h.magic
    version := by
      rw [hslice 4 2 (by omega)]
      exact h.version
    header := by
      rw [readHeader, hslice 6 4 (by omega), hslice 10 4 (by omega), hslice 18 8 (by omega), hself,
        hcapacity, hhead, hseq, ofBytes_bigEndian (hnew.trans h.fits), held_cons, Nat.mod_add_mod,
        Header.mk.injEq]
      refine ⟨rfl, ?_, rfl, rfl⟩
      congr 1
      omega
    start := .inr hnew
    room := fun _ => by omega
    content := by
      rw [window_splice_of_le (by rw [length_bigEndian]; omega) (by rw [length_bigEndian]; omega),
        window_mod]
      exact hmessages }

/-! ### Runs -/

def accepted (trace : List (Call × Answer)) : List Bytes :=
  trace.filterMap fun
    | (.write data, answer) => if refused answer then none else some data
    | (.read, _) => none

def received (trace : List (Call × Answer)) : List Bytes :=
  trace.filterMap fun
    | (.read, .got (.ok message)) => message
    | _ => none

def unread (trace : List (Call × Answer)) : List Bytes :=
  (accepted trace).drop (received trace).length

theorem run_cons (buf : Bytes) (call : Call) (calls : List Call) :
  run buf (call :: calls) =
    ((call, (step buf call).1) :: (run (step buf call).2 calls).1, (run (step buf call).2 calls).2)
  := rfl

/-- What a run leaves in the segment: the messages that were there and those that were accepted, less
those that were read. -/
theorem holds_run (h : Holds buf capacity tail messages seq) (calls : List Call)
    (hfew : seq + (accepted (run buf calls).1).length < 2 ^ 64) :
  ∃ tail' messages',
    Holds (run buf calls).2 capacity tail' messages' (seq + (accepted (run buf calls).1).length) ∧
      messages ++ accepted (run buf calls).1 = received (run buf calls).1 ++ messages'
  := by
  induction calls generalizing buf tail messages seq with
  | nil => exact ⟨tail, messages, h, List.append_nil messages⟩
  | cons call calls ih =>
    rw [run_cons] at hfew ⊢
    cases call with
    | write data =>
      by_cases hroom : held messages + (data.length + 4) < capacity
      · obtain ⟨hnot, hput, -⟩ := write_accepted h _ hroom
        have haccepted : accepted ((.write data, (step buf (.write data)).1) ::
            (run (step buf (.write data)).2 calls).1) =
              data :: accepted (run (write buf data).2 calls).1 := by
          simp [accepted, step, hnot]
        rw [haccepted, List.length_cons] at hfew ⊢
        obtain ⟨tail', messages', hholds, heq⟩ := ih (hput (by omega)).2 (by
          rw [Nat.add_right_comm, Nat.add_assoc]
          exact hfew)
        refine ⟨tail', messages', ?_, ?_⟩
        · rw [Nat.add_right_comm, Nat.add_assoc] at hholds
          exact hholds
        · rw [List.append_assoc] at heq
          exact heq
      · obtain ⟨hrefused, hsame⟩ := write_refused h data (by omega)
        have haccepted : accepted ((.write data, (step buf (.write data)).1) ::
            (run (step buf (.write data)).2 calls).1) = accepted (run buf calls).1 := by
          simp [accepted, step, hrefused, hsame]
        rw [haccepted] at hfew ⊢
        have hstep : (step buf (.write data)).2 = buf := hsame
        rw [hstep]
        exact ih h hfew
    | read =>
      cases messages with
      | nil =>
        have hread := read_of_nil h
        have hstep : step buf .read = (.got (.ok none), buf) := by rw [step, hread]
        rw [hstep] at hfew ⊢
        exact ih h hfew
      | cons message messages =>
        obtain ⟨hread, hholds⟩ := read_of_cons h
        have hstep : step buf .read = (.got (.ok (some message)), (read buf).2) := by
          rw [step, hread]
        rw [hstep] at hfew ⊢
        obtain ⟨tail', messages', hlast, heq⟩ := ih hholds hfew
        exact ⟨tail', messages', hlast, congrArg (message :: ·) heq⟩

/-- The messages that were read are the accepted ones in order, a write is refused exactly if it does not fit with four
bytes, and a refused write and an empty read change nothing. -/
structure Fifo (trace : List (Call × Answer)) (buf : Bytes) (capacity : Int) : Prop where
  order : received trace <+: accepted trace
  refusal : ∀ data, refused (.wrote (write buf data).1) = true ↔
    capacity - 1 - held (unread trace) < data.length + 4
  unchanged : ∀ data, refused (.wrote (write buf data).1) = true → (write buf data).2 = buf
  number : ∀ data, refused (.wrote (write buf data).1) = false →
    (accepted trace).length + 1 < 2 ^ 64 → (write buf data).1 = .ok ((accepted trace).length + 1)
  next : (read buf).1 = .ok (unread trace).head?
  empty : unread trace = [] → (read buf).2 = buf
  valid : validateHeader buf = .ok ()

/-- A ring is a bounded queue after any calls of which fewer than `2 ^ 64` are accepted writes. -/
theorem fifo_of_run {capacity : Int} {slack : Nat} (hcreate : create capacity slack = .ok buf)
    {calls : List Call} (hfew : (accepted (run buf calls).1).length < 2 ^ 64) :
  Fifo (run buf calls).1 (run buf calls).2 capacity
  := by
  obtain ⟨hpositive, hnew⟩ := holds_create hcreate
  obtain ⟨tail', messages, h, heq⟩ := holds_run hnew calls (by omega)
  rw [List.nil_append] at heq
  rw [Nat.zero_add] at h
  have hunread : unread (run buf calls).1 = messages := by
    rw [unread, heq, List.drop_left]
  have hcases : ∀ data : Bytes,
      (capacity - 1 - held messages < data.length + 4 ∧
        refused (.wrote (write (run buf calls).2 data).1) = true ∧
        (write (run buf calls).2 data).2 = (run buf calls).2) ∨
      (¬ capacity - 1 - held messages < data.length + 4 ∧
        held messages + (data.length + 4) < capacity.toNat) := by
    intro data
    by_cases hfull : capacity - 1 - held messages < data.length + 4
    · exact .inl ⟨hfull, write_refused h _ (by omega)⟩
    · exact .inr ⟨hfull, by omega⟩
  exact {
    order := ⟨messages, heq.symm⟩
    refusal := by
      intro data
      rw [hunread]
      rcases hcases data with ⟨hfull, hrefused, -⟩ | ⟨hfits, hroom⟩
      · exact ⟨fun _ => hfull, fun _ => hrefused⟩
      · rw [(write_accepted h _ hroom).1]
        simp [hfits]
    unchanged := by
      intro data hrefused
      rcases hcases data with ⟨-, -, hsame⟩ | ⟨-, hroom⟩
      · exact hsame
      · rw [(write_accepted h _ hroom).1] at hrefused
        cases hrefused
    number := by
      intro data hnot hmore
      rcases hcases data with ⟨-, hrefused, -⟩ | ⟨-, hroom⟩
      · rw [hrefused] at hnot
        cases hnot
      · exact ((write_accepted h _ hroom).2.1 hmore).1
    next := by
      rw [hunread]
      cases messages with
      | nil => rw [read_of_nil h, List.head?_nil]
      | cons message messages => exact (read_of_cons h).1
    empty := by
      intro hnone
      rw [hunread] at hnone
      subst hnone
      rw [read_of_nil h]
    valid := h.valid }

/-- A ring of twelve bytes after a message went over its end. -/
theorem fifo_of_wrapped :
  ∃ buf, create 12 0 = .ok buf ∧
    Fifo (run buf [.write [1, 2], .read, .write [3, 4, 5, 6, 7]]).1
      (run buf [.write [1, 2], .read, .write [3, 4, 5, 6, 7]]).2 12
  := by
  refine ⟨_, rfl, fifo_of_run rfl ?_⟩
  decide

/-! ### The end of the sequence numbers -/

def rounds (n : Nat) : List Call :=
  (List.replicate n [.write [], .read]).flatten

theorem rounds_succ (n : Nat) :
  rounds (n + 1) = .write [] :: .read :: rounds n
  := by
  rw [rounds, List.replicate_succ, List.flatten_cons]
  rfl

theorem holds_rounds (hcapacity : 4 < capacity) {n : Nat} (h : Holds buf capacity tail [] seq)
    (hfew : seq + n < 2 ^ 64) :
  accepted (run buf (rounds n)).1 = List.replicate n [] ∧
    received (run buf (rounds n)).1 = List.replicate n [] ∧
    ∃ tail', Holds (run buf (rounds n)).2 capacity tail' [] (seq + n)
  := by
  induction n generalizing buf tail seq with
  | zero => exact ⟨rfl, rfl, tail, h⟩
  | succ n ih =>
    obtain ⟨hnot, hput, -⟩ := write_accepted h [] (by simpa using hcapacity)
    obtain ⟨-, hwritten⟩ := hput (by omega)
    obtain ⟨hread, hrest⟩ := read_of_cons hwritten
    rw [rounds_succ, run_cons, run_cons]
    have hwrite : step buf (.write []) = (.wrote (write buf []).1, (write buf []).2) := rfl
    have hstep : step (write buf []).2 .read =
        (.got (.ok (some [])), (read (write buf []).2).2) := by
      rw [step, hread]
    rw [hwrite, hstep]
    obtain ⟨haccepted, hreceived, tail', hholds⟩ := ih hrest (by omega)
    refine ⟨?_, ?_, tail', ?_⟩
    · rw [List.replicate_succ, ← haccepted]
      simp [accepted, hnot]
    · rw [List.replicate_succ, ← hreceived]
      rfl
    · rw [Nat.add_right_comm, Nat.add_assoc] at hholds
      exact hholds

/-- In a ring without unread messages there is room for an empty one, but after `2 ^ 64 - 1` messages
writing it raises an error. -/
theorem write_fails_after_rounds :
  ∃ buf, create 12 0 = .ok buf ∧
    unread (run buf (rounds (2 ^ 64 - 1))).1 = [] ∧
    (write (run buf (rounds (2 ^ 64 - 1))).2 []).1 = .error .structError
  := by
  refine ⟨_, rfl, ?_⟩
  obtain ⟨-, hnew⟩ := @holds_create _ 12 0 rfl
  obtain ⟨haccepted, hreceived, tail', hholds⟩ := holds_rounds (by decide) hnew
    (n := 2 ^ 64 - 1) (by omega)
  refine ⟨?_, ?_⟩
  · rw [unread, haccepted, hreceived, List.length_replicate, List.drop_eq_nil_iff,
      List.length_replicate]
  · exact (write_accepted hholds [] (by decide)).2.2 (by omega)

end Courier.SharedMemoryRing
