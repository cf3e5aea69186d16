import Mathlib.Data.List.Basic

/-!
# The table of performance events

`perf_event_t` and the table of `events.c`. The hashes are filled in by `init_events`.
-/

namespace EmbeddedOS
namespace Perf

/-- The characters of a C string literal. -/
def ascii (s : String) : List UInt8 := s.toUTF8.data.toList

structure PerfEvent where
  name : List UInt8
  event_number : Nat
  hash : Nat
  deriving DecidableEq, Repr

/-- A row of the table, with the hash `-1`. -/
def event (name : String) (event_number : Nat) : PerfEvent := ⟨ascii name, event_number, 4294967295⟩

def perf_events : List PerfEvent := [
  event "SW_INC" 0x0000,
  event "L1I_Cache_Refill" 0x0001,
  event "L1I_TLB_Refill" 0x0002,
  event "L1D_Cache_Refill" 0x0003,
  event "L1D_Cache_Access" 0x0004,
  event "L1D_TLB_Refill" 0x0005,
  event "Load" 0x0006,
  event "Store" 0x0007,
  event "Instruction" 0x0008,
  event "Exception_Taken" 0x0009,
  event "Exception_Return" 0x000A,
  event "Write_Context" 0x000B,
  event "SW_PC" 0x000C,
  event "Immed_Branch_Taken" 0x000D,
  event "Branch_Taken" 0x000E,
  event "Unalign_Load_or_Store" 0x000F,
  event "Branch_Miss_ornot_taken" 0x0010,
  event "Cycle" 0x0011,
  event "Branch_Spec" 0x0012,
  event "Mem_Access" 0x0013,
  event "L1I_Cache_Access" 0x0014,
  event "L1D_Cache_WB" 0x0015,
  event "L2D_Cache_Access" 0x0016,
  event "L2D_Cache_Refill" 0x0017,
  event "L2D_Cache_WB" 0x0018,
  event "Bus_Access" 0x0019,
  event "Memory_Error" 0x001A,
  event "Spec_Exec" 0x001B,
  event "TTBR" 0x001C,
  event "Bus_Cycle" 0x001D,
  event "Chain" 0x001E,
  event "L1D_Cache_Alloc_WO_Refill" 0x001F,
  event "L2D_Cache_Alloc_WO_Refill" 0x0020,
  event "Branch" 0x0021,
  event "Branch_Miss" 0x0022,
  event "NOP_frontend" 0x0023,
  event "NOP_backend" 0x0024,
  event "L1DTLB_Access" 0x0025,
  event "L1I_TLB_Acess" 0x0026,
  event "L2I_Cache_Access" 0x0027,
  event "L2I_Cache_Refill" 0x0028,
  event "L3D_Cache_Alloc_WO_Refill" 0x0029,
  event "L3D_Cache_Refill" 0x002A,
  event "L3D_Cache_Access" 0x002B,
  event "L3D_Cache_WB" 0x002C,
  event "L2D_TLB_Refill" 0x002D,
  event "L2I_TLB_Refill" 0x002E,
  event "L2D_TLB_Access" 0x002F,
  event "L2I_TLB_Access" 0x0030,
  event "Remote_Access" 0x0031,
  event "LL_Cache_Access" 0x0032,
  event "LL_Cache_Miss" 0x0033,
  event "DTLB_Walk" 0x0034,
  event "ITLB_Walk" 0x0035,
  event "LL_Cache_RD" 0x0036,
  event "LL_Cache_RD_Miss" 0x0037,
  event "Remote_Access_RD" 0x0038,
  event "L1D_Cache_Long_Miss" 0x0039,
  event "OP_Arch_Exec" 0x003A,
  event "OP_Spec_Exec" 0x003B,
  event "Stall" 0x003C,
  event "Stall_Slot_Frontend" 0x003D,
  event "Stall_Slot_Backend" 0x003E,
  event "Stall_Slot" 0x003F,
  event "L1D_Cache_RD" 0x0040,
  event "L1D_Cache_WR" 0x0041,
  event "L1D_Cache_Refill_RD" 0x0042,
  event "L1D_Cache_Refill_WR" 0x0043,
  event "L1D_Cache_Refill_Inner" 0x0044,
  event "L1D_Cache_Refill_Outer" 0x0045,
  event "L1D_Cache_WB_V" 0x0046,
  event "L1D_Cache_WB_C" 0x0047,
  event "L1D_Cache_INV" 0x0048,
  event "L1D_TLB_Refill_RD" 0x004C,
  event "L1D_TLB_Refill_WR" 0x004D,
  event "L1D_TLB_Access_RD" 0x004E,
  event "L1D_TLB_Access_WR" 0x004F,
  event "L2D_Cache_Access_RD" 0x0050,
  event "L2D_Cache_Access_WR" 0x0051,
  event "L2D_Cache_Refill_RD" 0x0052,
  event "L2D_Cache_Refill_WR" 0x0053,
  event "L2D_Cache_WB_V" 0x0056,
  event "L2D_Cache_WB_C" 0x0057,
  event "L2D_Cache_WB_INV" 0x0058,
  event "L2D_TLB_Refill_RD" 0x005C,
  event "L2D_TLB_Refill_WR" 0x005D,
  event "L2D_TLB_Access_RD" 0x005E,
  event "L2D_TLB_Acess_WR" 0x005F,
  event "Bus_Access_RD" 0x0060,
  event "Bus_Access_WR" 0x0061,
  event "Bus_Access_Shared" 0x0062,
  event "Bus_Access_NotShared" 0x0063,
  event "Bus_Access_Normal" 0x0064,
  event "Bus_Access_Periph" 0x0065,
  event "Mem_Access_RD" 0x0066,
  event "Mem_Access_WR" 0x0067,
  event "Load_Spec" 0x0070,
  event "Store_Spec" 0x0071,
  event "Load_Store_Spec" 0x0072,
  event "Int_Proc_Spec" 0x0073,
  event "SW_PC_Spec" 0x0076,
  event "Immed_Branch_Spec" 0x0078,
  event "Proc_Ret_Spec" 0x0079,
  event "Ind_Branch_Spec" 0x007A,
  event "ISB_Spec" 0x007C,
  event "DSB_Spec" 0x007D,
  event "DMB_Spec" 0x007E,
  event "Exception_Other" 0x0081,
  event "Exception_SVC" 0x0082,
  event "Exception_I_Abort" 0x0083,
  event "Exception_D_Abort" 0x0084,
  event "Exception_IRQ" 0x0086,
  event "Exception_FIQ" 0x0087,
  event "Exception_SMC" 0x0088,
  event "Exception_HVC" 0x008A,
  event "Exception_I_Trap" 0x008B,
  event "Exception_D_Abort" 0x008C,
  event "Exception_Other_Trap" 0x008D,
  event "Exception_Trap_IRQ" 0x008E,
  event "Exception_Trap_FIQ" 0x008F,
  event "L3D_Cache_Access_RD" 0x00A0,
  event "L3D_Cache_Access_WR" 0x00A1,
  event "L3D_Cache_Refill_RD" 0x00A2,
  event "L3D_Cache_Refill_WR" 0x00A3,
  event "L3D_Cache_WB_V" 0x00A6,
  event "L3D_Cache_WB_C" 0x00A7,
  event "L3D_Cache_INV" 0x00A8,
  event "Constant_Freq_Cycle" 0x4004,
  event "Mem_Stall_Cycle" 0x4005,
  event "L1I_Access_Long_Miss" 0x4006,
  event "L2D_Cache_Long_Miss_Rd" 0x4009,
  event "L2I_Cache_Long_Miss" 0x400A,
  event "L2D_Cache_Long_Miss_Rd" 0x400B,
  event "TRB_Wrap" 0x400C,
  event "PMU_OVERFLOW_EL0" 0x400D,
  event "TRB_Trig" 0x400E,
  event "PMU_OVERFLOW_EL2" 0x400F,
  event "Prefetch_Spec" 0x8087,
  event "Immed_Branch_Taken" 0x8108,
  event "Immed_Branch_not_Taken" 0x8109,
  event "Ind_Branch_Taken" 0x810A,
  event "Ind_Branch_not_Taken" 0x810B,
  event "Ind_Branch_noproc_Taken" 0x810C,
  event "Ind_Branch_noproc_not_Taken" 0x810D,
  event "Proc_Return_Taken" 0x810E,
  event "Proc_Return_not_Taken" 0x810F,
  event "Immed_Branch_Pred" 0x8110,
  event "Immed_Branch_Miss" 0x8111,
  event "Ind_Branch_Pred" 0x8112,
  event "Ind_Branch_Miss" 0x8113,
  event "Proc_Pred" 0x8114,
  event "Proc_Miss" 0x8115,
  event "Ind_noproc_Pred" 0x8116,
  event "Ind_noproc_Miss" 0x8117,
  event "Branch_Pred_Taken" 0x8118,
  event "Branch_Miss_Taken" 0x8119,
  event "Branch_Pred_not_Taken" 0x811A,
  event "Branch_Miss_not_Taken" 0x811B,
  event "Branch_Pred" 0x811C,
  event "Ind_Branch" 0x811D,
  event "Ind_Branch_noproc" 0x811E,
  event "BRB_Filtrate" 0x811F,
  event "Inst_Fetch_PerCycle" 0x8120,
  event "Mem_RD_PerCycle" 0x8121,
  event "Inst_Fetch" 0x8124,
  event "Ind_Branch_noproc_nolink_Taken" 0x8179,
  event "Branch_link_Taken" 0x817A,
  event "Branch_nolink_Taken" 0x817B,
  event "Ind_Branch_link_Taken" 0x817C,
  event "Ind_Branch_nolink_Taken" 0x817D,
  event "Dir_Branch_link_Taken" 0x817E,
  event "Dir_Branch_nolink_Taken" 0x817F,
  event "Uncond_Branch" 0x8180,
  event "Cond_Branch" 0x8181,
  event "Cond_Branch_Taken" 0x8182,
  event "Hint_Cond_Branch" 0x8183,
  event "Load_Any" 0x82A8,
  event "Store_Any" 0x82A9,
  event "Load_or_Store_Any" 0x82AA,
  event "DSP" 0x82AB]

end Perf
end EmbeddedOS
