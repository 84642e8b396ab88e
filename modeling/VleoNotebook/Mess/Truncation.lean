import VleoNotebook.Mess.Sync

/-! A frame that is cut off.

The stream ends inside a frame. `receiveData` looks at the count of its reads only
while it hunts for the start code, so a cut behind that is not noticed: a length that is
not there counts as 0, a body that is short is taken as it is, and what is left of the
frame replaces the message of the object (`receive_truncated_iff`). -/
namespace VleoNotebook.Mess.MessageTransport

/-! ### The object -/

/-- `RAW` and `FROZEN` of a `MessageTransport` object. -/
structure Transport (M : Type) where
  raw : Option M
  frozen : Option Bytes
deriving DecidableEq

/-- How a method ends: it returns a number or dies. -/
inductive Ended where
  | returned (n : Int)
  | died
deriving DecidableEq

variable {M : Type} (thaw : Bytes → Option M)

/-- `setFrozen`; `thaw` is the module's, `none` where it dies. -/
def Transport.setFrozen (t : Transport M) (v : Bytes) : Ended × Transport M :=
  match thaw v with
  | some raw => (.returned 0, ⟨some raw, some v⟩)
  | none => (.died, {t with frozen := some v})

/-- `receiveData` of the object on a blocking stream. -/
def Transport.receiveData (t : Transport M) (stream : Bytes) : Ended × Transport M :=
  match (MessageTransport.receiveData stream).1 with
  | .done (.frozen body) => t.setFrozen thaw body
  | _ => (.returned (-1), t)

variable {thaw}

theorem setFrozen_ne (t : Transport M) (v : Bytes) :
    t.setFrozen thaw v ≠ (.returned (-1), t) := by
  unfold Transport.setFrozen
  cases thaw v with
  | some raw => exact fun h => absurd (Prod.mk.inj h).1 (by decide)
  | none => exact fun h => absurd (Prod.mk.inj h).1 (by decide)

/-! ### The cut -/

/-- Behind the start code every call ends with a body: with as much of it as the length
that is there asks for. -/
theorem receiveData_startCode (q : Bytes) :
    (MessageTransport.receiveData (0 :: 0 :: 0 :: 1 :: q)).1 =
      .done (.frozen (decode ((q.drop 4).take ((unpackN (q.take 4)).getD 0)))) := by
  have hhunt : hunt 0 (0 :: 0 :: 0 :: 1 :: q) = some q := rfl
  rw [receiveData_body, receiveBody_hunt, hhunt]

/-- Within it the hunt finds the end of the stream. -/
theorem receiveData_short {n : Nat} (hn : n < 4) :
    (MessageTransport.receiveData (List.take n [0, 0, 0, 1])).1 = .done .failed := by
  have hfailed : ∀ n < 4,
      (MessageTransport.receiveData (List.take n [0, 0, 0, 1])).1 = .done .failed := by decide
  exact hfailed n hn

/-- What is there of a stream of frames: less than the start code of the first, or all of
it and what follows. -/
theorem prefix_frame {x rest p : Bytes} (hp : p <+: sendData x ++ rest) :
    p.length < 4 ∧ p = List.take p.length [0, 0, 0, 1] ∨
      ∃ q, p = 0 :: 0 :: 0 :: 1 :: q ∧
        q <+: packN (escape x).length ++ (escape x ++ 3 :: rest) := by
  have hframe : sendData x ++ rest =
      [0, 0, 0, 1] ++ (packN (escape x).length ++ (escape x ++ 3 :: rest)) := by
    simp [sendData]
  rw [hframe] at hp
  by_cases hlen : p.length < 4
  · refine .inl ⟨hlen, ?_⟩
    have htake := List.prefix_iff_eq_take.mp hp
    rwa [List.take_append_of_le_length (Nat.le_of_lt hlen)] at htake
  · obtain ⟨q, rfl⟩ := List.prefix_of_prefix_length_le (List.prefix_append _ _) hp
      (Nat.not_lt.mp hlen)
    exact .inr ⟨q, rfl, (List.prefix_append_right_inj _).mp hp⟩

/-- **A cut is reported exactly within the start code.** Of every prefix of a frame,
`receiveData` returns `-1` and leaves the object alone if and only if it holds fewer than
the four bytes of the start code. -/
theorem receive_truncated_iff (thaw : Bytes → Option M) (t : Transport M) (x p : Bytes)
    (hp : p <+: sendData x) : t.receiveData thaw p = (.returned (-1), t) ↔ p.length < 4 := by
  rw [← List.append_nil (sendData x)] at hp
  obtain ⟨hlen, htake⟩ | ⟨q, rfl, -⟩ := prefix_frame hp
  · refine iff_of_true ?_ hlen
    rw [Transport.receiveData, htake, receiveData_short hlen]
  · refine iff_of_false ?_ (by simp)
    rw [Transport.receiveData, receiveData_startCode]
    exact setFrozen_ne t _

/-- Three bytes of the frame of the frozen form `FrT;@0|` of an empty list. -/
theorem receive_truncated_list :
    Transport.receiveData some ⟨none, none⟩ [0, 0, 0] = (.returned (-1), ⟨none, none⟩) ↔
      [(0 : UInt8), 0, 0].length < 4 :=
  receive_truncated_iff some ⟨none, none⟩ [70, 114, 84, 59, 64, 48, 124] [0, 0, 0]
    ⟨[1, 0, 0, 0, 7, 70, 114, 84, 59, 64, 48, 124, 3], by decide⟩

/-- Cut in the body, the beginning of the frozen form is taken for all of it; cut in the
length, the empty string is. -/
theorem receive_truncated_taken :
    let x : Bytes := [70, 114, 84, 59, 64, 49, 124, 36, 50, 124, 97, 98]
    let held : Transport Bytes := ⟨some [120], some [121]⟩
    (sendData x).take 18 <+: sendData x ∧ 18 < 8 + (escape x).length ∧
      held.receiveData some ((sendData x).take 18) ≠ (.returned (-1), held) ∧
      held.receiveData some ((sendData x).take 18) =
        (.returned 0, ⟨some (x.take 10), some (x.take 10)⟩) ∧
      held.receiveData some ((sendData x).take 6) = (.returned 0, ⟨some [], some []⟩) := by
  decide

end VleoNotebook.Mess.MessageTransport
