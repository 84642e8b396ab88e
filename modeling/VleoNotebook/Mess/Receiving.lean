import VleoNotebook.Mess.Survival
import VleoNotebook.Mess.Truncation

/-! What the bytes of one message do to a MESS server.

`receiveData` hands on the decoded part of the escaped form that is there
(`receiveData_prefix`). So a message is the one that was sent when its frame is there
whole and the escaping restores it (`Arrives`); of any other the server gets what `thaw`
makes of the rest. Either way it lives exactly if it survives what it has got
(`fromStream_ok_iff`). -/
namespace VleoNotebook.Mess

open Proc

/-! ### What is received -/

namespace MessageTransport

/-- A `\003` in front, as the frame before leaves it, is passed over. -/
theorem receiveData_etx (s : Bytes) : (receiveData (3 :: s)).1 = (receiveData s).1 := by
  have hhunt : hunt 0 (3 :: s) = hunt 0 s := rfl
  rw [receiveData_body, receiveData_body, receiveBody_hunt, receiveBody_hunt, hhunt]

theorem unpackN_short {s : Bytes} (h : s.length < 4) : unpackN s = none := by
  match s with
  | [] | [_] | [_, _] | [_, _, _] => rfl
  | _ :: _ :: _ :: _ :: _ => exact absurd h (by simp)

/-- Of a text that may not be there whole as much as there is, and no more than of it. -/
theorem take_prefix {e s t : Bytes} (h : t <+: e ++ s) : t.take e.length = e.take t.length := by
  rcases Nat.le_total t.length e.length with hle | hle
  · obtain ⟨u, rfl⟩ := List.prefix_of_prefix_length_le h (List.prefix_append e s) hle
    rw [List.take_left, List.take_of_length_le (by simp)]
  · obtain ⟨u, rfl⟩ := List.prefix_of_prefix_length_le (List.prefix_append e s) h hle
    rw [List.take_left, List.take_of_length_le (by simp)]

/-- **What is there of a frame is what is received of it.** Less than the start code
makes the call fail; otherwise the body is as much of the escaped form as there is. -/
theorem receiveData_prefix {x rest p : Bytes} (hlen : (escape x).length < 2 ^ 32)
    (hp : p <+: sendData x ++ rest) :
    (receiveData p).1 = if p.length < 4 then .done .failed
      else .done (.frozen (decode ((escape x).take (p.length - 8)))) := by
  obtain ⟨hshort, htake⟩ | ⟨q, rfl, hq⟩ := prefix_frame hp
  · rw [if_pos hshort, htake, receiveData_short hshort]
  · rw [if_neg (by simp), receiveData_startCode]
    by_cases hlength : q.length < 4
    · -- the length is not there, and counts as 0
      rw [unpackN_short (by simp; omega), Option.getD_none, List.take_zero, List.length_cons,
        Nat.sub_eq_zero_of_le (by simp; omega), List.take_zero]
    · obtain ⟨t, rfl⟩ := List.prefix_of_prefix_length_le (List.prefix_append _ _) hq
        (by rw [packN_length]; omega)
      have ht := (List.prefix_append_right_inj _).mp hq
      rw [List.take_left' (packN_length _), List.drop_left' (packN_length _),
        unpackN_packN hlen, Option.getD_some, take_prefix ht]
      simp [packN_length]

/-- The frame of `x` is there whole, and the escaping restores `x`. -/
structure Arrives (x p : Bytes) : Prop where
  whole : 8 + (escape x).length ≤ p.length
  not_swallowed : ¬ Swallowed x
  not_endsInEtx : ¬ EndsInEtx x

theorem Arrives.decode_take {x p : Bytes} (h : Arrives x p) :
    decode ((escape x).take (p.length - 8)) = x := by
  rw [List.take_of_length_le (by have := h.whole; omega)]
  exact (decode_escape_iff x).mpr ⟨h.not_swallowed, h.not_endsInEtx⟩

end MessageTransport

/-! ### What it does -/

open MessageTransport (Bytes escape decode Arrives)

theorem fromStream_failed {thaw : Bytes → Except String Message} {cfg : Config} {w : World}
    {stream : Bytes} (h : (MessageTransport.receiveData stream).1 = .done .failed)
    (r : RoutingTables) : fromStream thaw cfg w stream r = skip r := by
  rw [fromStream, h]

theorem fromStream_frozen_ok_iff {thaw : Bytes → Except String Message} {cfg : Config} {w : World}
    {stream body : Bytes} (h : (MessageTransport.receiveData stream).1 = .done (.frozen body))
    (r : RoutingTables) :
    (fromStream thaw cfg w stream r).error = none ↔
      ∃ m, thaw body = .ok m ∧ Survives cfg w m r := by
  rw [fromStream, h]
  cases hthaw : thaw body with
  | error text => simp [hthaw]
  | ok m => simp [hthaw, fromSock_ok_iff]

namespace Sample

/-- A `ping` of `L1` to its server. -/
def ping : Message :=
  ⟨.call, "M1", "L1", "M1", subaddrSelf, "00000000-0000-11e0-0000-000000000009", "", "ping",
    some [("tm", "1300000000.5")], .orig⟩

/-- Its frozen form: the names of the fields in order, then their values. -/
def frozenPing : Bytes :=
  ["FrT;@1|>11|MessMessage%20|", "$6|ARGVAL", "$3|DST", "$6|DSTSUB", "$6|METHOD", "$3|SRC",
    "$6|SRCSUB", "$6|STATUS", "$4|TYPE", "$4|UUID", "$8|UUIDORIG", "%2|$2|tm$12|1300000000.5",
    "$2|M1", "$6|_SELF_", "$4|ping", "$2|M1", "$2|L1", "$4|ORIG", "$4|CALL",
    "$36|00000000-0000-11e0-0000-000000000009", "$0|"].flatMap fun s =>
      s.toList.map fun c => UInt8.ofNat c.toNat

/-- `thaw`, as far as this form is concerned. -/
def thawPing (x : Bytes) : Except String Message :=
  if x = frozenPing then .ok ping else .error "Do not know how to thaw"

end Sample

end VleoNotebook.Mess
