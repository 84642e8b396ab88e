import VleoNotebook.Mess.Escaping

/-! A frame read from its start.

On a blocking stream `receiveData` always ends (`receiveData_done`). In front of a
frame of `sendData` it reads the start code, the length and exactly the escaped
form, and leaves the `\003` that `sendData` writes behind it (`receiveData_frame`).
So the message comes through as far as un-escaping restores it, and as long as it
does not itself end in the byte that is stripped (`receiveData_sendData_iff`). -/
namespace VleoNotebook.Mess.MessageTransport

/-! ### Termination -/

theorem Scan.drive_done (fuel : Nat) (r : Received) (s : Bytes) :
    Scan.drive fuel (.done r) s = (.done r, s) := by
  induction fuel with
  | zero => rfl
  | succ fuel ih => exact ih

/-- Every read on a blocking stream brings the machine nearer to its end. -/
theorem Scan.rank_feed (q : Scan) (s : Bytes) :
    3 * (s.drop q.want).length + (q.feed (some (s.take q.want))).rank + 1 ≤
      3 * s.length + q.rank ∨ ∃ r, q = .done r := by
  cases q with
  | noZero =>
    refine .inl ?_
    cases s with
    | nil => simp [want, feed, rank]
    | cons b s => by_cases hb : b = 0 <;> simp [want, feed, rank, hb, Nat.mul_add]
  | second =>
    refine .inl ?_
    cases s with
    | nil => simp [want, feed, rank, unpackC]
    | cons b s => by_cases hb : b = 0 <;> simp [want, feed, rank, unpackC, hb, Nat.mul_add]
  | third o =>
    refine .inl ?_
    cases s with
    | nil => simp [want, feed, rank, unpackC]
    | cons b s =>
      by_cases hb : b = 1 <;> by_cases hb' : b = 0 <;>
        simp [want, feed, rank, unpackC, hb, hb', Nat.mul_add]
  | leadingZeros =>
    refine .inl ?_
    cases s with
    | nil => simp [want, feed, rank]
    | cons b s =>
      by_cases hb : b = 1 <;> by_cases hb' : b = 0 <;>
        simp [want, feed, rank, hb, hb'] <;> omega
  | gotNALstart =>
    refine .inl ?_
    simp only [want, feed, rank, List.length_drop]
    omega
  | body n =>
    refine .inl ?_
    simp only [want, feed, rank, List.length_drop]
    omega
  | done r => exact .inr ⟨r, rfl⟩

theorem Scan.drive_reaches (fuel : Nat) (q : Scan) (s : Bytes)
    (h : 3 * s.length + q.rank ≤ fuel) : ∃ r, (Scan.drive fuel q s).1 = .done r := by
  induction fuel generalizing q s with
  | zero =>
    cases q with
    | done r => exact ⟨r, rfl⟩
    | _ => simp [rank] at h
  | succ fuel ih =>
    rcases Scan.rank_feed q s with hstep | ⟨r, rfl⟩
    · exact ih _ _ (by omega)
    · exact ⟨r, by rw [Scan.drive_done]⟩

/-- `receiveData` ends on every stream that does. -/
theorem receiveData_done (s : Bytes) : ∃ r, (receiveData s).1 = .done r :=
  Scan.drive_reaches _ _ _ (Nat.le_refl _)

/-! ### In front of a frame -/

theorem packN_length (n : Nat) : (packN n).length = 4 := rfl

theorem unpackN_packN {n : Nat} (h : n < 2 ^ 32) : unpackN (packN n) = some n := by
  simp only [packN, unpackN, UInt8.toNat_ofNat']
  congr 1
  omega

/-- What `receiveData` hands `setFrozen` when this escaped form is the body. -/
def decode (coded : Bytes) : Bytes := stripFinal (unescape coded)

theorem Scan.drive_startCode (fuel : Nat) (s : Bytes) :
    Scan.drive (fuel + 4) .noZero (0 :: 0 :: 0 :: 1 :: s) = Scan.drive fuel .gotNALstart s := rfl

theorem Scan.drive_length (fuel : Nat) {n : Nat} (h : n < 2 ^ 32) (s : Bytes) :
    Scan.drive (fuel + 1) .gotNALstart (packN n ++ s) = Scan.drive fuel (.body n) s := by
  have htake : (packN n ++ s).take 4 = packN n := List.take_left' (packN_length n)
  have hdrop : (packN n ++ s).drop 4 = s := List.drop_left' (packN_length n)
  simp only [Scan.drive, Scan.want, Scan.feed, htake, hdrop, Option.getD_some, unpackN_packN h]

theorem Scan.drive_body (fuel : Nat) (coded s : Bytes) :
    Scan.drive (fuel + 1) (.body coded.length) (coded ++ s) =
      (.done (.frozen (decode coded)), s) := by
  simp only [Scan.drive, Scan.want, Scan.feed, List.take_left, List.drop_left, Option.getD_some,
    Scan.drive_done, decode]

/-- From the start of a frame `receiveData` reads up to the `\003` and hands over
the decoded body. -/
theorem receiveData_frame (x rest : Bytes) (h : (escape x).length < 2 ^ 32) :
    receiveData (sendData x ++ rest) = (.done (.frozen (decode (escape x))), 3 :: rest) := by
  have hframe : sendData x ++ rest =
      0 :: 0 :: 0 :: 1 :: (packN (escape x).length ++ (escape x ++ 3 :: rest)) := by
    simp [sendData]
  obtain ⟨n, hn⟩ : ∃ n, 3 * (sendData x ++ rest).length + 1 = n + 1 + 1 + 4 := by
    refine ⟨3 * (sendData x ++ rest).length + 1 - 6, ?_⟩
    rw [hframe]
    simp only [List.length_cons]
    omega
  rw [receiveData, hn, hframe, Scan.drive_startCode, Scan.drive_length _ h, Scan.drive_body]

/-- **The round trip of a frame.** Whatever follows it on the stream, a message
comes out of `receiveData` as it went into `sendData` exactly when no run of zeros
in it swallows a `03` and it does not end in `03` or `03` and a newline. -/
theorem receiveData_sendData_iff (x rest : Bytes) (h : (escape x).length < 2 ^ 32) :
    (receiveData (sendData x ++ rest)).1 = .done (.frozen x) ↔
      ¬ Swallowed x ∧ ¬ EndsInEtx x := by
  rw [receiveData_frame x rest h]
  simp only [Scan.done.injEq, Received.frozen.injEq]
  exact decode_escape_iff x

/-- The frozen form of an empty list, with a frame behind it. -/
theorem receiveData_sendData_frozen :
    (receiveData (sendData [70, 114, 84, 59, 64, 48, 124] ++ sendData [70])).1 =
        .done (.frozen [70, 114, 84, 59, 64, 48, 124]) ↔
      ¬ Swallowed [70, 114, 84, 59, 64, 48, 124] ∧ ¬ EndsInEtx [70, 114, 84, 59, 64, 48, 124] :=
  receiveData_sendData_iff [70, 114, 84, 59, 64, 48, 124] (sendData [70]) (by decide)

/-- The frozen form `FrT;@1|$6|` of a string of four zeros, a `03` and a full stop
arrives without the `03`. -/
theorem receiveData_sendData_loses :
    let x : Bytes := [70, 114, 84, 59, 64, 49, 124, 36, 54, 124, 0, 0, 0, 0, 3, 46]
    (escape x).length < 2 ^ 32 ∧ (receiveData (sendData x)).1 ≠ .done (.frozen x) ∧
      (receiveData (sendData x)).1 =
        .done (.frozen [70, 114, 84, 59, 64, 49, 124, 36, 54, 124, 0, 0, 0, 0, 46]) := by
  decide

end VleoNotebook.Mess.MessageTransport
