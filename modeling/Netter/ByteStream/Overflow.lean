import Mathlib.Data.List.Induction
import Netter.ByteStream.RoundTrip

/-!
# Writes that do not fit

Over a raw buffer `_WriteByte` drops a piece that does not fit and leaves the position where it is. The
next piece is tried at the same place, so a smaller one goes where the dropped one should be. A string is
two pieces, its length and its bytes.
-/

namespace Netter.CByteStream

open Lib

/-- A write call of the class; a caller of the versions with a length has that many bytes. -/
inductive WriteCall where
  | int (type : IntType) (value : type.Carrier)
  | stringLen (str : List UInt8) (len : UInt32) (enough : len.toNat ≤ str.length)
  | cString (str : Option (List UInt8))
  | string (str : List UInt8)
  | data (bytes : List UInt8) (len : UInt32) (enough : len.toNat ≤ bytes.length)

def WriteCall.exec : WriteCall → StreamM Unit
  | .int type value => type.put value
  | .stringLen str len _ => writeStringLen str len
  | .cString str => writeCString str
  | .string str => writeString str
  | .data bytes len _ => writeData bytes len

def writeCalls : List WriteCall → StreamM Unit
  | [] => return
  | call :: calls => do call.exec; writeCalls calls

/-- A length and so many bytes. -/
def prefixed (bytes : List UInt8) (len : UInt32) : List (List UInt8) :=
  [BigEndian.toBytes 4 len.toBitVec, bytes.take len.toNat]

/-- The parts of the field, each of which `_WriteByte` writes or drops. -/
def WriteCall.pieces : WriteCall → List (List UInt8)
  | .int type value => [BigEndian.toBytes type.bytes (type.bits value)]
  | .stringLen str len _ => prefixed str len
  | .cString str =>
    let str := (str.getD []).takeWhile (· ≠ 0)
    prefixed str (UInt32.ofNat str.length)
  | .string str => prefixed str (UInt32.ofNat str.length)
  | .data bytes len _ => prefixed bytes len

def allPieces (calls : List WriteCall) : List (List UInt8) := calls.flatMap WriteCall.pieces

/-- The complete encoding of the fields. -/
def encodeCalls (calls : List WriteCall) : List UInt8 := (allPieces calls).flatten

/-- What the stream holds is a front part of the encoding, and a reader finds no field in another's place. -/
structure FrontOnly (calls : List WriteCall) (s : CByteStream) : Prop where
  /-- After each call. -/
  front : ∀ k, ∃ t, (writeCalls (calls.take k)).run s = .ok () t ∧ t.getBuf.take t.pos.toNat <+: encodeCalls calls
  /-- When a piece has been dropped, nothing is written any more. -/
  stops : ∀ before piece after t, allPieces calls = before ++ piece :: after → piece ≠ [] →
    (writePieces before).run s = .ok () t → (writePieces [piece]).run t = .ok () t →
    (writePieces after).run t = .ok () t

/-- A size that changes nothing at `pos`: no byte, or a sum with the position above the capacity. -/
def Dropped (cap pos size : Nat) : Prop := size = 0 ∨ cap < (pos + size) % 2 ^ 32

/-- From the first piece on that is too large for what is left, no piece is small enough for it. -/
def GapTooSmall (cap : Nat) (pieces : List (List UInt8)) : Prop :=
  ∀ before piece after, pieces = before ++ piece :: after → before.flatten.length ≤ cap →
    cap < before.flatten.length + piece.length →
    ∀ other ∈ piece :: after, Dropped cap before.flatten.length other.length

/-! ## Calls as pieces -/

theorem writeByte_take {buf : List UInt8} {len : UInt32} (enough : len.toNat ≤ buf.length) :
    writeByte buf len = writeByte (buf.take len.toNat) len := by
  have whole : load buf 0 len.toNat = load (buf.take len.toNat) 0 len.toNat := by
    rw [load_zero enough, load_zero (by rw [List.length_take]; omega), List.take_take, Nat.min_self]
  unfold writeByte
  refine congrArg _ (funext fun s => ?_)
  cases s.backing with
  | raw mem =>
    dsimp only
    rw [whole]
  | simple sb =>
    dsimp only
    rw [SimpleBuffer.write_take enough]

theorem ofNat_length_take {buf : List UInt8} {len : UInt32} (enough : len.toNat ≤ buf.length) :
    UInt32.ofNat (buf.take len.toNat).length = len := by
  rw [List.length_take, Nat.min_eq_left enough, UInt32.ofNat_toNat]

theorem writeStringLen_eq {str : List UInt8} {len : UInt32} (enough : len.toNat ≤ str.length) :
    writeStringLen str len = writePieces (prefixed str len) := by
  simp only [writeStringLen, prefixed, writePieces, bind_pure_unit, BigEndian.length_toBytes, ofNat_length_take enough]
  rw [writeByte_take enough]
  rfl

theorem ofNat_length_le (str : List UInt8) : (UInt32.ofNat str.length).toNat ≤ str.length := by
  rw [UInt32.toNat_ofNat']
  exact Nat.mod_le _ _

theorem WriteCall.exec_eq (call : WriteCall) : call.exec = writePieces call.pieces := by
  cases call with
  | int type value =>
    simp only [WriteCall.exec, WriteCall.pieces, writePieces, IntType.put_eq, BigEndian.length_toBytes, bind_pure_unit]
  | stringLen str len enough => exact writeStringLen_eq enough
  | cString str => exact writeStringLen_eq (ofNat_length_le _)
  | string str => exact writeStringLen_eq (ofNat_length_le _)
  | data bytes len enough => exact writeStringLen_eq enough

theorem writeCalls_eq (calls : List WriteCall) : writeCalls calls = writePieces (allPieces calls) := by
  induction calls with
  | nil => rfl
  | cons call calls ih => rw [writeCalls, WriteCall.exec_eq, ih, allPieces, allPieces, List.flatMap_cons, writePieces_append]

theorem length_prefixed {bytes : List UInt8} {len : UInt32} : ∀ piece ∈ prefixed bytes len, piece.length < 2 ^ 32 := by
  intro piece member
  rcases List.mem_cons.mp member with rfl | rest
  · rw [BigEndian.length_toBytes]
    decide
  · rw [List.mem_singleton.mp rest, List.length_take]
    exact Nat.lt_of_le_of_lt (Nat.min_le_left _ _) len.toNat_lt

/-- The length of a piece is a `uint32_t`. -/
theorem length_piece {calls : List WriteCall} : ∀ piece ∈ allPieces calls, piece.length < 2 ^ 32 := by
  intro piece member
  obtain ⟨call, -, member⟩ := List.mem_flatMap.mp member
  cases call with
  | int type value =>
    have small := type.bytes_le
    rw [List.mem_singleton.mp member, BigEndian.length_toBytes]
    omega
  | stringLen str len enough => exact length_prefixed piece member
  | cString str => exact length_prefixed piece member
  | string str => exact length_prefixed piece member
  | data bytes len enough => exact length_prefixed piece member

/-! ## One piece -/

section Raw

variable {cap : UInt32} (mem : Block UInt8 cap.toNat) {pos : UInt32} {piece : List UInt8} {pieces : List (List UInt8)}

theorem writeByte_raw {len : UInt32} (count : len.toNat = piece.length) : (writeByte piece len).run (rawAt mem pos) =
    if pos + len > cap then .ok () (rawAt mem pos)
    else match mem.store pos.toNat piece with
      | some mem' => .ok () (rawAt mem' (pos + len))
      | none => .error .undefined (rawAt mem pos) := by
  have loaded : load piece 0 len.toNat = some piece := by
    rw [count, load_zero (Nat.le_refl _), List.take_length]
  by_cases check : pos + len > cap
  · simp [writeByte, rawAt, check]
  · cases stored : mem.store pos.toNat piece with
    | none => simp [writeByte, rawAt, check, loaded, stored]
    | some mem' => simp [writeByte, rawAt, check, loaded, stored]

theorem toNat_length (small : piece.length < 2 ^ 32) : (UInt32.ofNat piece.length).toNat = piece.length :=
  UInt32.toNat_ofNat_of_lt' small

theorem write_fits (fits : pos.toNat + piece.length ≤ cap.toNat) :
    ∃ mem' : Block UInt8 cap.toNat, (writeByte piece (UInt32.ofNat piece.length)).run (rawAt mem pos) =
        .ok () (rawAt mem' (pos + UInt32.ofNat piece.length)) ∧
      (pos + UInt32.ofNat piece.length).toNat = pos.toNat + piece.length ∧
      mem'.cells.take (pos.toNat + piece.length) = mem.cells.take pos.toNat ++ piece := by
  have bound := cap.toNat_lt
  have count := toNat_length (show piece.length < 2 ^ 32 by omega)
  have moved := toNat_add_of_le (count.symm ▸ fits : pos.toNat + (UInt32.ofNat piece.length).toNat ≤ cap.toNat)
  have check : ¬ pos + UInt32.ofNat piece.length > cap := by
    rw [gt_iff_lt, UInt32.lt_iff_toNat_lt, moved]
    omega
  obtain ⟨mem', stored, -⟩ := mem.store_eq_some fits
  refine ⟨mem', ?_, by rw [moved, count], Block.store_take_end stored⟩
  rw [writeByte_raw mem count, if_neg check, stored]

/-- A piece without bytes changes nothing, and one that does not fit is dropped. -/
theorem write_dropped (start : pos.toNat ≤ cap.toNat) (dropped : Dropped cap.toNat pos.toNat piece.length)
    (small : piece.length < 2 ^ 32) :
    (writeByte piece (UInt32.ofNat piece.length)).run (rawAt mem pos) = .ok () (rawAt mem pos) := by
  rw [writeByte_raw mem (toNat_length small)]
  split
  · rfl
  next check =>
    have empty : piece = [] := by
      rcases dropped with empty | beyond
      · exact List.length_eq_zero_iff.mp empty
      · exact absurd ((add_gt_iff pos _).mpr (by rw [toNat_length small]; exact beyond)) check
    subst empty
    obtain ⟨mem', stored, cells⟩ :=
      mem.store_eq_some (show pos.toNat + ([] : List UInt8).length ≤ cap.toNat from start)
    have same : mem' = mem := Block.ext (by rw [cells, List.append_nil]; exact List.take_append_drop _ _)
    have stays : pos + UInt32.ofNat ([] : List UInt8).length = pos := UInt32.add_zero pos
    rw [stored, same, stays]

/-- The copy passes the check and ends behind the buffer. -/
theorem write_wraps (beyond : cap.toNat < pos.toNat + piece.length) (wraps : (pos.toNat + piece.length) % 2 ^ 32 ≤ cap.toNat)
    (small : piece.length < 2 ^ 32) :
    (writeByte piece (UInt32.ofNat piece.length)).run (rawAt mem pos) = .error .undefined (rawAt mem pos) := by
  have check : ¬ pos + UInt32.ofNat piece.length > cap := by
    rw [add_gt_iff, toNat_length small]
    omega
  have outside : mem.store pos.toNat piece = none := dif_neg (by omega)
  rw [writeByte_raw mem (toNat_length small), if_neg check, outside]

/-! ## Runs of pieces -/

section Sequence

variable {s t : CByteStream} {more : List (List UInt8)} {e : Stop}

theorem writePieces_cons (written : (writeByte piece (UInt32.ofNat piece.length)).run s = .ok () t) :
    (writePieces (piece :: pieces)).run s = (writePieces pieces).run t := by
  rw [writePieces, EStateM.run_bind, written]

theorem writePieces_cons_error (fails : (writeByte piece (UInt32.ofNat piece.length)).run s = .error e t) :
    (writePieces (piece :: pieces)).run s = .error e t := by
  rw [writePieces, EStateM.run_bind, fails]

theorem writePieces_behind (first : (writePieces pieces).run s = .ok () t) :
    (writePieces (pieces ++ more)).run s = (writePieces more).run t := by
  rw [writePieces_append, EStateM.run_bind, first]

end Sequence

/-- Pieces that all fit are written one behind the other. -/
theorem writePieces_fit (fits : pos.toNat + pieces.flatten.length ≤ cap.toNat) :
    ∃ (mem' : Block UInt8 cap.toNat) (pos' : UInt32), (writePieces pieces).run (rawAt mem pos) = .ok () (rawAt mem' pos') ∧
      pos'.toNat = pos.toNat + pieces.flatten.length ∧
      mem'.cells.take pos'.toNat = mem.cells.take pos.toNat ++ pieces.flatten := by
  induction pieces generalizing mem pos with
  | nil => exact ⟨mem, pos, rfl, rfl, by rw [List.flatten_nil, List.append_nil]⟩
  | cons piece pieces ih =>
    rw [List.flatten_cons, List.length_append] at fits ⊢
    obtain ⟨mid, run, moved, cells⟩ := write_fits mem (show pos.toNat + piece.length ≤ cap.toNat by omega)
    have left : (pos + UInt32.ofNat piece.length).toNat + pieces.flatten.length ≤ cap.toNat := by omega
    obtain ⟨mem', pos', rest, moved', cells'⟩ := ih mid left
    refine ⟨mem', pos', (writePieces_cons run).trans rest, by omega, ?_⟩
    rw [cells', moved, cells, List.append_assoc]

theorem writePieces_start (fits : pieces.flatten.length ≤ cap.toNat) :
    ∃ (mem' : Block UInt8 cap.toNat) (pos' : UInt32), (writePieces pieces).run (rawAt mem 0) = .ok () (rawAt mem' pos') ∧
      pos'.toNat = pieces.flatten.length ∧ mem'.cells.take pos'.toNat = pieces.flatten := by
  have start : (0 : UInt32).toNat + pieces.flatten.length = pieces.flatten.length := Nat.zero_add _
  obtain ⟨mem', pos', run, moved, cells⟩ := writePieces_fit mem (start.symm ▸ fits)
  exact ⟨mem', pos', run, moved.trans start, cells⟩

/-- Pieces that are all dropped leave the stream as it is. -/
theorem writePieces_dropped (start : pos.toNat ≤ cap.toNat) (small : ∀ piece ∈ pieces, piece.length < 2 ^ 32)
    (dropped : ∀ piece ∈ pieces, Dropped cap.toNat pos.toNat piece.length) :
    (writePieces pieces).run (rawAt mem pos) = .ok () (rawAt mem pos) := by
  induction pieces with
  | nil => rfl
  | cons piece pieces ih =>
    obtain ⟨first, others⟩ := List.forall_mem_cons.mp dropped
    obtain ⟨short, shorts⟩ := List.forall_mem_cons.mp small
    rw [writePieces_cons (write_dropped mem start first short)]
    exact ih shorts others

/-- The position only grows. -/
theorem pos_le_of_run (start : pos.toNat ≤ cap.toNat) (small : ∀ piece ∈ pieces, piece.length < 2 ^ 32)
    {t : CByteStream} (run : (writePieces pieces).run (rawAt mem pos) = .ok () t) :
    ∃ (mem' : Block UInt8 cap.toNat) (pos' : UInt32), t = rawAt mem' pos' ∧ pos.toNat ≤ pos'.toNat := by
  induction pieces generalizing mem pos with
  | nil =>
    cases run
    exact ⟨mem, pos, rfl, Nat.le_refl _⟩
  | cons piece pieces ih =>
    obtain ⟨short, shorts⟩ := List.forall_mem_cons.mp small
    by_cases fits : pos.toNat + piece.length ≤ cap.toNat
    · obtain ⟨mid, written, moved, -⟩ := write_fits mem fits
      rw [writePieces_cons written] at run
      obtain ⟨mem', pos', is, grows⟩ := ih mid (by omega) shorts run
      exact ⟨mem', pos', is, by omega⟩
    by_cases wraps : (pos.toNat + piece.length) % 2 ^ 32 ≤ cap.toNat
    · rw [writePieces_cons_error (write_wraps mem (Nat.lt_of_not_le fits) wraps short)] at run
      cases run
    · rw [writePieces_cons (write_dropped mem start (.inr (Nat.lt_of_not_le wraps)) short)] at run
      exact ih mem start shorts run

/-- A run that leaves the stream as it is has dropped every piece. -/
theorem dropped_of_run (start : pos.toNat ≤ cap.toNat) (small : ∀ piece ∈ pieces, piece.length < 2 ^ 32)
    (run : (writePieces pieces).run (rawAt mem pos) = .ok () (rawAt mem pos)) :
    ∀ piece ∈ pieces, Dropped cap.toNat pos.toNat piece.length := by
  induction pieces with
  | nil => nofun
  | cons piece pieces ih =>
    obtain ⟨short, shorts⟩ := List.forall_mem_cons.mp small
    have first : Dropped cap.toNat pos.toNat piece.length := by
      by_cases fits : pos.toNat + piece.length ≤ cap.toNat
      · obtain ⟨mid, written, moved, -⟩ := write_fits mem fits
        rw [writePieces_cons written] at run
        obtain ⟨mem', pos', is, grows⟩ := pos_le_of_run mid (by omega) shorts run
        have same : pos = pos' := congrArg CByteStream.pos is
        subst same
        exact .inl (by omega)
      by_cases wraps : (pos.toNat + piece.length) % 2 ^ 32 ≤ cap.toNat
      · rw [writePieces_cons_error (write_wraps mem (Nat.lt_of_not_le fits) wraps short)] at run
        cases run
      · exact .inr (Nat.lt_of_not_le wraps)
    rw [writePieces_cons (write_dropped mem start first short)] at run
    exact List.forall_mem_cons.mpr ⟨first, ih shorts run⟩

end Raw

/-! ## The first piece that does not fit -/

theorem fit_or_gap (cap : Nat) (pieces : List (List UInt8)) : pieces.flatten.length ≤ cap ∨
    ∃ before piece after, pieces = before ++ piece :: after ∧ before.flatten.length ≤ cap ∧
      cap < before.flatten.length + piece.length := by
  induction pieces using List.reverseRecOn with
  | nil => exact .inl (Nat.zero_le cap)
  | append_singleton pieces last ih =>
    rcases ih with fits | ⟨before, piece, after, is, fits, beyond⟩
    · by_cases more : pieces.flatten.length + last.length ≤ cap
      · left
        rw [List.flatten_append, List.flatten_singleton, List.length_append]
        exact more
      · exact .inr ⟨pieces, last, [], rfl, fits, Nat.lt_of_not_le more⟩
    · refine .inr ⟨before, piece, after ++ [last], ?_, fits, beyond⟩
      rw [is, List.append_assoc, List.cons_append]

theorem GapTooSmall.left {cap : Nat} {pieces more : List (List UInt8)} (gap : GapTooSmall cap (pieces ++ more)) :
    GapTooSmall cap pieces := by
  intro before piece after is fits beyond other member
  refine gap before piece (after ++ more) ?_ fits beyond other ?_
  · rw [is, List.append_assoc, List.cons_append]
  · rw [← List.cons_append]
    exact List.mem_append_left more member

/-- The pieces in front of the first one that does not fit are written, and nothing else is. -/
theorem GapTooSmall.run {cap : UInt32} {pieces : List (List UInt8)} (gap : GapTooSmall cap.toNat pieces)
    (mem : Block UInt8 cap.toNat) (small : ∀ piece ∈ pieces, piece.length < 2 ^ 32) :
    ∃ (mem' : Block UInt8 cap.toNat) (pos' : UInt32), (writePieces pieces).run (rawAt mem 0) = .ok () (rawAt mem' pos') ∧
      mem'.cells.take pos'.toNat <+: pieces.flatten := by
  rcases fit_or_gap cap.toNat pieces with fits | ⟨before, piece, after, is, fits, beyond⟩
  · obtain ⟨mem', pos', run, -, cells⟩ := writePieces_start mem fits
    refine ⟨mem', pos', run, ?_⟩
    simp only [cells, List.prefix_rfl]
  · obtain ⟨mem', pos', run, moved, cells⟩ := writePieces_start mem fits
    have dropped := gap before piece after is fits beyond
    rw [← moved] at dropped fits
    have short : ∀ other ∈ piece :: after, other.length < 2 ^ 32 := fun other member =>
      small other (by rw [is]; exact List.mem_append_right _ member)
    refine ⟨mem', pos', ?_, ?_⟩
    · rw [is, writePieces_behind run]
      exact writePieces_dropped mem' fits short dropped
    · rw [cells, is, List.flatten_append]
      exact List.prefix_append _ _

/-! ## Every list of fields -/

section Calls

variable {cap : UInt32} {mem : Block UInt8 cap.toNat} {calls : List WriteCall}

theorem allPieces_take (calls : List WriteCall) (k : Nat) :
    allPieces calls = allPieces (calls.take k) ++ allPieces (calls.drop k) := by
  unfold allPieces
  rw [← List.flatMap_append, List.take_append_drop]

theorem FrontOnly.of_gap (gap : GapTooSmall cap.toNat (allPieces calls)) : FrontOnly calls (rawAt mem 0) := by
  constructor
  · intro k
    have part := gap
    rw [allPieces_take calls k] at part
    obtain ⟨mem', pos', run, front⟩ := part.left.run mem length_piece
    refine ⟨rawAt mem' pos', by rw [writeCalls_eq]; exact run, front.trans ?_⟩
    unfold encodeCalls
    rw [allPieces_take calls k, List.flatten_append]
    exact List.prefix_append _ _
  · intro before piece after t is some runs drops
    have small : ∀ other ∈ allPieces calls, other.length < 2 ^ 32 := length_piece
    rcases fit_or_gap cap.toNat before with fits | ⟨first, gone, others, split, fits, beyond⟩
    · obtain ⟨mem', pos', run, moved, -⟩ := writePieces_start mem fits
      rw [run] at runs
      cases runs
      have inside : pos'.toNat ≤ cap.toNat := moved ▸ fits
      have dropped := dropped_of_run mem' inside (fun other member => small other (by
        rw [is, List.mem_singleton.mp member]
        exact List.mem_append_right _ List.mem_cons_self)) drops piece List.mem_cons_self
      have beyond : cap.toNat < before.flatten.length + piece.length := by
        rcases dropped with empty | beyond
        · exact absurd (List.length_eq_zero_iff.mp empty) some
        · rw [← moved]
          exact Nat.lt_of_lt_of_le beyond (Nat.mod_le _ _)
      have all := gap before piece after is fits beyond
      rw [← moved] at all
      refine writePieces_dropped mem' inside (fun other member => small other ?_) fun other member => all other ?_
      · rw [is]
        exact List.mem_append_right _ (List.mem_cons_of_mem _ member)
      · exact List.mem_cons_of_mem _ member
    · obtain ⟨mem', pos', run, moved, -⟩ := writePieces_start mem fits
      have whole : allPieces calls = first ++ gone :: (others ++ piece :: after) := by
        rw [is, split, List.append_assoc, List.cons_append]
      have all := gap first gone _ whole fits beyond
      have inside : pos'.toNat ≤ cap.toNat := moved ▸ fits
      rw [← moved] at all
      have short : ∀ other ∈ gone :: (others ++ piece :: after), other.length < 2 ^ 32 := fun other member =>
        small other (by rw [whole]; exact List.mem_append_right _ member)
      have front : ∀ other ∈ gone :: others, other ∈ gone :: (others ++ piece :: after) := fun other member =>
        List.mem_append_left (piece :: after) member
      have skips := writePieces_dropped mem' inside (fun other member => short other (front other member))
        fun other member => all other (front other member)
      rw [split, writePieces_behind run] at runs
      have same := skips.symm.trans runs
      cases same
      have later : ∀ other ∈ after, other ∈ gone :: (others ++ piece :: after) := fun other member =>
        List.mem_cons_of_mem _ (List.mem_append_right _ (List.mem_cons_of_mem _ member))
      exact writePieces_dropped mem' inside (fun other member => short other (later other member))
        fun other member => all other (later other member)

theorem FrontOnly.gap (front : FrontOnly calls (rawAt mem 0)) : GapTooSmall cap.toNat (allPieces calls) := by
  intro before piece after is fits beyond
  have small : ∀ other ∈ piece :: after, other.length < 2 ^ 32 := fun other member =>
    length_piece other (by rw [is]; exact List.mem_append_right _ member)
  obtain ⟨mem', pos', run, moved, -⟩ := writePieces_start mem fits
  have inside : pos'.toNat ≤ cap.toNat := moved ▸ fits
  obtain ⟨t, whole, -⟩ := front.front calls.length
  rw [List.take_length, writeCalls_eq, is, writePieces_behind run] at whole
  have tooFar : cap.toNat < pos'.toNat + piece.length := moved ▸ beyond
  have short := small piece List.mem_cons_self
  have first : Dropped cap.toNat pos'.toNat piece.length := by
    by_cases wraps : (pos'.toNat + piece.length) % 2 ^ 32 ≤ cap.toNat
    · rw [writePieces_cons_error (write_wraps mem' tooFar wraps short)] at whole
      cases whole
    · exact .inr (Nat.lt_of_not_le wraps)
  have some : piece ≠ [] := by
    rintro rfl
    rw [List.length_nil] at tooFar
    omega
  have drops : (writePieces [piece]).run (rawAt mem' pos') = .ok () (rawAt mem' pos') :=
    writePieces_cons (write_dropped mem' inside first short)
  have rest := front.stops before piece after _ is some run drops
  rw [← moved]
  exact List.forall_mem_cons.mpr
    ⟨first, dropped_of_run mem' inside (fun other member => small other (List.mem_cons_of_mem _ member)) rest⟩

/-- **A write that does not fit corrupts nothing behind it** exactly when no later piece fits where it should have
been: for each capacity and each list of fields. -/
theorem write_front_iff (cap : UInt32) (mem : Block UInt8 cap.toNat) (calls : List WriteCall) :
    FrontOnly calls (ofRaw mem cap) ↔ GapTooSmall cap.toNat (allPieces calls) :=
  ⟨FrontOnly.gap, FrontOnly.of_gap⟩

/-- Five bytes of room for a string of two bytes and an integer of one: the integer follows the length of the string. -/
theorem not_write_front :
    ¬ FrontOnly [.string [97, 98], .int .uint8 (7 : UInt8)] (ofRaw (⟨[0, 0, 0, 0, 0], rfl⟩ : Block UInt8 5) 5) := by
  intro front
  have written : (writeCalls [.string [97, 98], .int .uint8 (7 : UInt8)]).run
      (ofRaw (⟨[0, 0, 0, 0, 0], rfl⟩ : Block UInt8 5) 5) =
        .ok () ⟨.raw (⟨[0, 0, 0, 2, 7], rfl⟩ : Block UInt8 5), 5, 5⟩ := rfl
  obtain ⟨t, run, starts⟩ := front.front 2
  rw [List.take_of_length_le (Nat.le_refl 2), written] at run
  cases run
  exact absurd starts (by decide)

end Calls

end Netter.CByteStream
