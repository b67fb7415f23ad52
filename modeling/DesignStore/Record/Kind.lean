/-
The kinds of record the store can hold.

A record type says what a record means; its kind says how it is laid out.  The two are
independent, and a pool binds each record type to the kind it was first used with.
-/

namespace DesignStore

/-- The layout of a record. -/
inductive RecordKind where
  | bare
  | inst
  | net
  | pin
  | layer
  | timingCell
  | placement
  | cell
  | tech
  | timing
  | ids
  | bytes
  | words
  | longs
  deriving DecidableEq, Repr

namespace RecordKind

/-- The name under which reports and messages show a kind. -/
def typeName : RecordKind → String
  | .bare => "edi_core::header::ObjectHeader"
  | .inst => "edi_test_utils::MockInst"
  | .net => "edi_test_utils::MockNet"
  | .pin => "edi_test_utils::MockPin"
  | .layer => "edi_test_utils::MockLayer"
  | .timingCell => "edi_test_utils::MockTimingCell"
  | .placement => "edi_bench::BenchInst"
  | .cell => "edi_db::record::Cell"
  | .tech => "edi_db::record::Tech"
  | .timing => "edi_db::record::Timing"
  | .ids => "edi_pool::array::DynamicArray<edi_core::id::ObjectId>"
  | .bytes => "edi_pool::array::DynamicArray<u8>"
  | .words => "edi_pool::array::DynamicArray<u32>"
  | .longs => "edi_pool::array::DynamicArray<u64>"

/-- Bytes a record takes in its slot, header included. -/
def recordBytes : RecordKind → Nat
  | .bare => 16
  | .inst => 40
  | .net => 32
  | .pin => 48
  | .layer => 24
  | .timingCell => 24
  | .placement => 48
  | .cell => 48
  | .tech => 40
  | .timing => 40
  | .ids | .bytes | .words | .longs => 40

/-- Bytes of a slot: a record, and a word for its generation. -/
def slotBytes (k : RecordKind) : Nat :=
  k.recordBytes + 8

def elementBytes : RecordKind → Nat
  | .ids | .longs => 8
  | .words => 4
  | .bytes => 1
  | _ => 0

end RecordKind
end DesignStore
