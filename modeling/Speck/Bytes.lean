import Mathlib.Algebra.Order.Ring.Nat
import Mathlib.Tactic.Common
import Mathlib.Tactic.Ring

/-!
# Bytes

Numbers as bytes of either order, and streams of bytes that arrive and leave in pieces. A reader
is what its reads will deliver : pieces of any size, interruptions and failures. `pending` is the
text before its first failure. Reading does not depend on the pieces : `readExact` takes a prefix of
what is pending (`readExact_ok`) or fails (`readExact_short`). A sender hands its bytes over in
pieces too, and what has left is a prefix of them (`sendAll_isPrefix`).
-/

namespace Speck

/-! ## Big-endian numbers -/

/-- The last `width` digits of a number in base 256, the first one first. -/
def beBytes : ℕ → ℕ → List UInt8
  | 0, _ => []
  | width + 1, value => UInt8.ofNat (value / 256 ^ width) :: beBytes width value

def readBe : List UInt8 → ℕ
  | [] => 0
  | byte :: bytes => byte.toNat * 256 ^ bytes.length + readBe bytes

@[simp] theorem readBe_singleton (byte : UInt8) : readBe [byte] = byte.toNat := by
  simp [readBe]

@[simp] theorem length_beBytes (width value : ℕ) : (beBytes width value).length = width := by
  induction width with
  | zero => rfl
  | succ width ih => rw [beBytes, List.length_cons, ih]

theorem readBe_lt (bytes : List UInt8) : readBe bytes < 256 ^ bytes.length := by
  induction bytes with
  | nil => simp [readBe]
  | cons byte bytes ih =>
    have hbyte : byte.toNat + 1 ≤ 256 := byte.toNat_lt
    rw [readBe, List.length_cons, pow_succ]
    calc byte.toNat * 256 ^ bytes.length + readBe bytes
        < byte.toNat * 256 ^ bytes.length + 256 ^ bytes.length := by omega
      _ = (byte.toNat + 1) * 256 ^ bytes.length := by ring
      _ ≤ 256 * 256 ^ bytes.length := Nat.mul_le_mul_right _ hbyte
      _ = 256 ^ bytes.length * 256 := by ring

theorem readBe_beBytes (width value : ℕ) : readBe (beBytes width value) = value % 256 ^ width := by
  induction width with
  | zero => simp [beBytes, readBe, Nat.mod_one]
  | succ width ih =>
    have hbyte : (UInt8.ofNat (value / 256 ^ width)).toNat = value / 256 ^ width % 256 :=
      UInt8.toNat_ofNat'
    rw [beBytes, readBe, length_beBytes, ih, hbyte, pow_succ, Nat.mod_mul]
    ring

theorem readBe_beBytes_of_lt {width value : ℕ} (h : value < 256 ^ width) :
    readBe (beBytes width value) = value := by
  rw [readBe_beBytes, Nat.mod_eq_of_lt h]

theorem beBytes_add_mul (width value high : ℕ) :
    beBytes width (high * 256 ^ width + value) = beBytes width value := by
  induction width generalizing high with
  | zero => rfl
  | succ width ih =>
    have hpow : high * 256 ^ (width + 1) + value = high * 256 * 256 ^ width + value := by
      rw [pow_succ]
      ring
    have hdiv : (high * 256 * 256 ^ width + value) / 256 ^ width =
        value / 256 ^ width + high * 256 := by
      rw [Nat.add_comm, Nat.add_mul_div_right _ _ (Nat.pow_pos (by norm_num))]
    rw [hpow, beBytes, ih, beBytes, hdiv]
    congr 1
    refine UInt8.toNat.inj ?_
    rw [UInt8.toNat_ofNat', UInt8.toNat_ofNat', Nat.add_mul_mod_self_right]

theorem beBytes_succ (width value : ℕ) :
    beBytes (width + 1) value = beBytes width (value / 256) ++ [UInt8.ofNat value] := by
  induction width with
  | zero => simp [beBytes]
  | succ width ih =>
    rw [beBytes, ih, beBytes, List.cons_append, Nat.div_div_eq_div_mul, ← pow_succ']

/-- Bytes are the digits of their number. -/
theorem beBytes_readBe (bytes : List UInt8) : beBytes bytes.length (readBe bytes) = bytes := by
  induction bytes with
  | nil => rfl
  | cons byte bytes ih =>
    have hdiv : (byte.toNat * 256 ^ bytes.length + readBe bytes) / 256 ^ bytes.length =
        byte.toNat := by
      rw [Nat.add_comm, Nat.add_mul_div_right _ _ (Nat.pow_pos (by norm_num)),
        Nat.div_eq_of_lt (readBe_lt bytes), zero_add]
    rw [readBe, List.length_cons, beBytes, beBytes_add_mul, ih, hdiv, UInt8.ofNat_toNat]

/-! ## Little-endian numbers -/

def leBytes (width value : ℕ) : List UInt8 := (beBytes width value).reverse

def readLe (bytes : List UInt8) : ℕ := readBe bytes.reverse

@[simp] theorem length_leBytes (width value : ℕ) : (leBytes width value).length = width := by
  simp [leBytes]

theorem readLe_lt (bytes : List UInt8) : readLe bytes < 256 ^ bytes.length := by
  rw [readLe, ← List.length_reverse]
  exact readBe_lt bytes.reverse

theorem readLe_leBytes_of_lt {width value : ℕ} (h : value < 256 ^ width) :
    readLe (leBytes width value) = value := by
  rw [readLe, leBytes, List.reverse_reverse, readBe_beBytes_of_lt h]

theorem leBytes_readLe (bytes : List UInt8) : leBytes bytes.length (readLe bytes) = bytes := by
  have h := beBytes_readBe bytes.reverse
  rw [List.length_reverse] at h
  rw [leBytes, readLe, h, List.reverse_reverse]

/-! ## Steps that fail -/

theorem ok_bind {ε α β : Type} (a : α) (k : α → Except ε β) : (.ok a >>= k) = k a := rfl

theorem bind_ok_iff {ε α β : Type} {m : Except ε α} {k : α → Except ε β} {b : β} :
    (m >>= k) = .ok b ↔ ∃ a, m = .ok a ∧ k a = .ok b := by
  cases m with
  | error e => simp [bind, Except.bind]
  | ok a => simp [ok_bind]

/-! ## Reading -/

inductive ErrorKind where
  | connectionReset
  | unexpectedEof
  | other

structure ReadError where
  kind : ErrorKind
  text : String

def ReadError.unexpectedEof : ReadError := ⟨.unexpectedEof, "failed to fill whole buffer"⟩

/-- What a read meets : a piece of the stream, which is not empty, or an error. -/
inductive Delivery where
  | bytes (first : UInt8) (rest : List UInt8)
  | interrupted
  | failed (error : ReadError)

/-- A reader by what it will deliver, and then the end of the stream. -/
abbrev Reader := List Delivery

/-- The bytes before the first failure. -/
def pending : Reader → List UInt8
  | [] => []
  | .bytes first rest :: r => first :: rest ++ pending r
  | .interrupted :: r => pending r
  | .failed _ :: _ => []

/-- The reader from its first failure on. -/
def ending : Reader → Reader
  | [] => []
  | .bytes _ _ :: r => ending r
  | .interrupted :: r => ending r
  | .failed error :: r => .failed error :: r

/-- A piece that was read in part. -/
def pushBack : List UInt8 → Reader → Reader
  | [], r => r
  | first :: rest, r => .bytes first rest :: r

@[simp] theorem pending_pushBack (bytes : List UInt8) (r : Reader) :
    pending (pushBack bytes r) = bytes ++ pending r := by
  cases bytes <;> rfl

@[simp] theorem ending_pushBack (bytes : List UInt8) (r : Reader) :
    ending (pushBack bytes r) = ending r := by
  cases bytes <;> rfl

/-- `Read::read_exact` : read again until the buffer is full, also after an interruption. -/
def readExact : ℕ → Reader → Except ReadError (List UInt8) × Reader
  | 0, r => (.ok [], r)
  | _ + 1, [] => (.error .unexpectedEof, [])
  | n + 1, .interrupted :: r => readExact (n + 1) r
  | _ + 1, .failed error :: r => (.error error, r)
  | n + 1, .bytes first rest :: r =>
    if rest.length ≤ n then
      match readExact (n - rest.length) r with
      | (.ok bytes, r) => (.ok (first :: rest ++ bytes), r)
      | (.error error, r) => (.error error, r)
    else (.ok (first :: rest.take n), pushBack (rest.drop n) r)

theorem readExact_ok {n : ℕ} {r : Reader} (h : n ≤ (pending r).length) :
    ∃ r', readExact n r = (.ok ((pending r).take n), r') ∧ pending r' = (pending r).drop n ∧
      ending r' = ending r := by
  induction r generalizing n with
  | nil =>
    obtain rfl : n = 0 := by simpa [pending] using h
    exact ⟨[], rfl, rfl, rfl⟩
  | cons delivery r ih =>
    obtain _ | n := n
    · exact ⟨_, rfl, rfl, rfl⟩
    cases delivery with
    | failed error => simp [pending] at h
    | interrupted => exact ih h
    | bytes first rest =>
      simp only [pending, List.cons_append, List.length_cons, List.length_append] at h
      by_cases hrest : rest.length ≤ n
      · obtain ⟨r', hread, hpending, hending⟩ := ih (n := n - rest.length) (by omega)
        refine ⟨r', ?_, ?_, hending⟩
        · rw [readExact, if_pos hrest, hread]
          simp [pending, List.take_append, List.take_of_length_le hrest]
        · rw [hpending]
          simp [pending, List.drop_append, List.drop_of_length_le hrest]
      · have hle : n ≤ rest.length := by omega
        refine ⟨pushBack (rest.drop n) r, ?_, ?_, ?_⟩
        · rw [readExact, if_neg hrest, pending, List.cons_append, List.take_succ_cons,
            List.take_append_of_le_length hle]
        · rw [pending_pushBack, pending, List.cons_append, List.drop_succ_cons,
            List.drop_append_of_le_length hle]
        · rw [ending_pushBack, ending]

theorem readExact_short {n : ℕ} {r : Reader} (h : (pending r).length < n) :
    ∃ error r', readExact n r = (.error error, r') := by
  induction r generalizing n with
  | nil =>
    obtain _ | n := n
    · cases h
    · exact ⟨_, _, rfl⟩
  | cons delivery r ih =>
    obtain _ | n := n
    · cases h
    cases delivery with
    | failed error => exact ⟨_, _, rfl⟩
    | interrupted => exact ih h
    | bytes first rest =>
      simp only [pending, List.cons_append, List.length_cons, List.length_append] at h
      obtain ⟨error, r', hread⟩ := ih (n := n - rest.length) (by omega)
      exact ⟨error, r', by rw [readExact, if_pos (by omega), hread]⟩

/-- What was read is what was pending. -/
theorem pending_of_readExact {n : ℕ} {r r' : Reader} {bytes : List UInt8}
    (h : readExact n r = (.ok bytes, r')) :
    bytes.length = n ∧ pending r = bytes ++ pending r' ∧ ending r' = ending r := by
  rcases Nat.lt_or_ge (pending r).length n with hshort | hlong
  · obtain ⟨error, _, hread⟩ := readExact_short hshort
    rw [hread] at h
    cases (Prod.mk.inj h).1
  · obtain ⟨_, hread, hpending, hending⟩ := readExact_ok hlong
    rw [hread] at h
    obtain ⟨hbytes, rfl⟩ := Prod.mk.inj h
    obtain rfl := Except.ok.inj hbytes
    exact ⟨by simp [hlong], by rw [hpending, List.take_append_drop], hending⟩

/-! ## Sending -/

/-- What a send does : it takes bytes, at least one and at most all, is interrupted, or fails. -/
inductive SendResult where
  | sent (more : ℕ)
  | interrupted
  | failed

/-- `send_all` : the bytes that have left, whether these are all, and the results that are left. A
send without a result fails. -/
def sendAll : List SendResult → List UInt8 → List UInt8 × Bool × List SendResult
  | results, [] => ([], true, results)
  | [], _ => ([], false, [])
  | .interrupted :: results, byte :: bytes => sendAll results (byte :: bytes)
  | .failed :: results, _ => ([], false, results)
  | .sent more :: results, byte :: bytes =>
    let rest := sendAll results (bytes.drop more)
    (byte :: bytes.take more ++ rest.1, rest.2)

@[simp] theorem sendAll_nil (results : List SendResult) :
    sendAll results [] = ([], true, results) := by
  cases results <;> rfl

/-- How many bytes the results take at least. -/
def sends : List SendResult → ℕ
  | [] => 0
  | .sent _ :: results => sends results + 1
  | _ :: results => sends results

/-- A send that is only split and interrupted goes through. -/
theorem sendAll_complete {results : List SendResult} {bytes : List UInt8} {more : ℕ}
    (hfailed : .failed ∉ results) (hsends : bytes.length + more ≤ sends results) :
    (sendAll results bytes).2.1 = true ∧ .failed ∉ (sendAll results bytes).2.2 ∧
      more ≤ sends (sendAll results bytes).2.2 := by
  induction results generalizing bytes with
  | nil =>
    obtain _ | ⟨byte, bytes⟩ := bytes
    · rw [sendAll_nil]
      exact ⟨rfl, hfailed, by simpa using hsends⟩
    · simp [sends] at hsends
  | cons result results ih =>
    obtain _ | ⟨byte, bytes⟩ := bytes
    · rw [sendAll_nil]
      exact ⟨rfl, hfailed, by simpa using hsends⟩
    have hrest : .failed ∉ results := fun h => hfailed (List.mem_cons_of_mem _ h)
    cases result with
    | failed => exact absurd List.mem_cons_self hfailed
    | interrupted => exact ih hrest hsends
    | sent count =>
      refine ih hrest ?_
      simp only [sends, List.length_cons, List.length_drop] at hsends ⊢
      omega

theorem sendAll_isPrefix (results : List SendResult) (bytes : List UInt8) :
    (sendAll results bytes).1 <+: bytes ∧
      ((sendAll results bytes).2.1 = true → (sendAll results bytes).1 = bytes) := by
  induction results generalizing bytes with
  | nil =>
    cases bytes with
    | nil => exact ⟨List.prefix_rfl, fun _ => rfl⟩
    | cons byte bytes => exact ⟨List.nil_prefix, by simp [sendAll]⟩
  | cons result results ih =>
    cases bytes with
    | nil => exact ⟨List.prefix_rfl, fun _ => rfl⟩
    | cons byte bytes =>
      cases result with
      | interrupted => exact ih (byte :: bytes)
      | failed => exact ⟨List.nil_prefix, by simp [sendAll]⟩
      | sent more =>
        obtain ⟨⟨tail, htail⟩, hall⟩ := ih (bytes.drop more)
        refine ⟨⟨tail, ?_⟩, fun hsent => ?_⟩
        · simp [sendAll, List.append_assoc, htail]
        · simp [sendAll, hall hsent]

end Speck
