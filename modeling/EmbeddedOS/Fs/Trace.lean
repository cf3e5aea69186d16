import EmbeddedOS.Base.Flow
import EmbeddedOS.Fs.File

/-!
# What the file system does to the trace stack

`push_trace` and `pop_trace` on the paths through `fs/ext2`. Which path a call takes depends on the
disk and the heap; those tests are left open, and a function has the traces of all its paths. The
tests on the `FILE` that the caller hands over are those of the source.
-/

namespace EmbeddedOS
namespace Fs
namespace Trace

open Base

/-- Entries of `trace_stack`. -/
abbrev TRACE_STACK : Nat := 100

abbrev push_trace : Flow Mark := .emit .push

abbrev pop_trace : Flow Mark := .emit .pop

/-- `new`, and `alt`: without memory they go to `exit`. -/
def new : Flow Mark := .when .exit

/-- `del` goes to `exit` if the heap is `NULL`, but `cull` has used the heap by then. -/
def del : Flow Mark := .skip

/-! ## `inode.c` -/

def read_disk_block : Language Mark :=
  Flow.proc (.block [push_trace, pop_trace])

def write_disk_block : Language Mark :=
  Flow.proc (.block [push_trace, pop_trace])

def get_disk_block_number : Language Mark :=
  Flow.func (.block [
      push_trace,
      new,
      .when .exit,
      .when (.block [.call read_disk_block, .exit]),
      .when (.block [.call read_disk_block, .call read_disk_block, .exit]),
      .when (.block [
        .call read_disk_block, .call read_disk_block, .call read_disk_block, .exit])])
    (.block [pop_trace, .ret])

def read_inode_metadata : Language Mark :=
  Flow.func (.block [push_trace, .when new]) (.block [.when del, pop_trace])

def write_inode_metadata : Language Mark :=
  Flow.func (.block [push_trace, new]) (.block [pop_trace, del])

def read_inode_block : Language Mark :=
  Flow.func (.block [push_trace, new, .call get_disk_block_number, .call read_disk_block])
    (.block [pop_trace, .ret])

def write_inode_block : Language Mark :=
  Flow.proc (.block [push_trace, .call get_disk_block_number, .call write_disk_block, pop_trace])

def read_inode_filedata : Language Mark :=
  Flow.func (.block [push_trace, .loop (.block [.call read_inode_block, del])])
    (.block [pop_trace, .ret])

def write_inode_filedata : Language Mark :=
  Flow.func (.block [
      push_trace,
      .when (.call write_inode_metadata),
      .loop (.block [.call read_inode_block, .call write_inode_block, del])])
    pop_trace

/-! ## `ext2.c` -/

def ext2_listdir : Language Mark :=
  Flow.func (.block [
      push_trace,
      new,
      .call read_inode_metadata,
      new,
      .call read_inode_block,
      .loop (.block [
        .when (.call read_inode_block),
        .when new,
        .when new,
        .when .leave])])
    (.block [pop_trace, .ret])

def file_from_dirent : Language Mark :=
  Flow.func (.block [push_trace, new]) (.block [pop_trace, .ret])

/-- The entry found is made a file after the pop. -/
def ext2_finddir : Language Mark :=
  Flow.func (.block [
      push_trace,
      new,
      .call read_inode_metadata,
      .call read_inode_block,
      .loop (.block [
        .when (.call read_inode_block),
        new,
        .when (.block [
          new, .call read_inode_metadata, pop_trace, .call file_from_dirent, .ret]),
        .when .leave])])
    (.block [pop_trace, .ret])

def ext2_create_entry : Language Mark :=
  Flow.func (.block [
      push_trace,
      new,
      .call read_inode_metadata,
      new,
      .call read_inode_block,
      .loop (.block [
        .when (.call read_inode_block),
        .when (.when (.block [pop_trace, .ret])),
        .when (.block [
          .call write_inode_block,
          .when (.call read_inode_block),
          .call write_inode_block,
          pop_trace,
          .ret]),
        .when .next])])
    pop_trace

def ext2_remove_entry : Language Mark :=
  Flow.func (.block [
      push_trace,
      new,
      .call read_inode_metadata,
      new,
      .call read_inode_block,
      .loop (.block [
        .when (.call read_inode_block),
        .when (.when (.block [.call write_inode_block, pop_trace, .ret])),
        .when (.block [pop_trace, .ret])])])
    pop_trace

def ext2_read : Language Mark :=
  Flow.func (.block [push_trace, new, .call read_inode_metadata, .call read_inode_filedata])
    (.block [pop_trace, .ret])

def ext2_write : Language Mark :=
  Flow.func (.block [push_trace, new, .call read_inode_metadata, .call write_inode_filedata])
    (.block [pop_trace, .ret])

def ext2_open (file : FILE) : Language Mark :=
  Flow.func (.block [
      push_trace,
      if file.file_buffer = NULL then .block [new, .call ext2_read] else .skip])
    pop_trace

def ext2_close (file : FILE) : Language Mark :=
  Flow.proc (.block [if file.file_buffer ≠ NULL then del else .skip, .ret])

def write_bgd : Language Mark :=
  Flow.proc (.loop (.call write_disk_block))

def ext2_alloc_block : Language Mark :=
  Flow.func (.block [
      push_trace,
      new,
      .loop (.block [
        .when .next,
        .call read_disk_block,
        .loop (.block [
          .when .next,
          .loop (.when (.block [.call write_disk_block, .call write_bgd, pop_trace, .ret]))])])])
    (.block [pop_trace, .ret])

/-! ## `file.c` -/

def fs_open (file : Option FILE) : Language Mark :=
  Flow.proc (.block [
    push_trace,
    match file with
    | none => .block [pop_trace, .ret]
    | some f => .block [.call (ext2_open f), pop_trace]])

/-- Both returns of -1 leave the push behind. -/
def f_read (file : Option FILE) (size : UInt32) : Language Mark :=
  Flow.proc (.block [
    push_trace,
    match file with
    | none => .ret
    | some f => .block [
        if size + f.cur_offset > f.size then .ret else .skip,
        if f.file_buffer = NULL then .call (fs_open (some f)) else .skip,
        pop_trace,
        .ret]])

def f_write (file : Option FILE) : Language Mark :=
  Flow.proc (.block [
    push_trace,
    match file with
    | some _ => .block [.call ext2_write, pop_trace, .ret]
    | none => .block [pop_trace, .ret]])

/-- Nothing to close leaves the push behind. -/
def f_close (file : Option FILE) : Language Mark :=
  Flow.proc (.block [
    push_trace,
    match file with
    | none => .ret
    | some f => .block [
        if f.refcount = -1 then .ret else .skip,
        if i32 (f.refcount - 1) = 0 then .call (ext2_close f) else .skip,
        pop_trace]])

/-! ## Functions that come back on every path -/

section Rises

theorem new_body {h : Nat} : Body h 1 1 new :=
  .when .exit

theorem del_body {h a : Nat} : Body h a a del :=
  .skip

/-- The end of most functions. -/
theorem pop_ret {h b : Nat} : Body h 1 b (.block [pop_trace, .ret]) :=
  .cons .pop (.cons .ret .nil)

theorem read_disk_block_rises : Rises 1 read_disk_block :=
  .proc (.cons (.push (by decide)) (.cons .pop .nil))

theorem write_disk_block_rises : Rises 1 write_disk_block :=
  .proc (.cons (.push (by decide)) (.cons .pop .nil))

theorem get_disk_block_number_rises : Rises 2 get_disk_block_number := by
  have hread : Body 2 1 1 (.call read_disk_block) := .call read_disk_block_rises (by decide)
  have hsingly : Body 2 1 1 (.when (.block [.call read_disk_block, .exit])) :=
    .when (.cons hread (.cons .exit .nil))
  have hdoubly : Body 2 1 1 (.when (.block [.call read_disk_block, .call read_disk_block, .exit])) :=
    .when (.cons hread (.cons hread (.cons .exit .nil)))
  have htriply : Body 2 1 1 (.when (.block [
      .call read_disk_block, .call read_disk_block, .call read_disk_block, .exit])) :=
    .when (.cons hread (.cons hread (.cons hread (.cons .exit .nil))))
  refine .func (.cons (.push (by decide)) (.cons new_body (.cons (.when .exit) ?_))) pop_ret
  exact .cons hsingly (.cons hdoubly (.cons htriply .nil))

theorem read_inode_metadata_rises : Rises 1 read_inode_metadata :=
  .func (.cons (.push (by decide)) (.cons (.when new_body) .nil))
    (.cons (.when del_body) (.cons .pop .nil))

theorem write_inode_metadata_rises : Rises 1 write_inode_metadata :=
  .func (.cons (.push (by decide)) (.cons new_body .nil)) (.cons .pop (.cons del_body .nil))

theorem read_inode_block_rises : Rises 3 read_inode_block := by
  have hnumber : Body 3 1 1 (.call get_disk_block_number) :=
    .call get_disk_block_number_rises (by decide)
  have hread : Body 3 1 1 (.call read_disk_block) := .call read_disk_block_rises (by decide)
  exact .func (.cons (.push (by decide)) (.cons new_body (.cons hnumber (.cons hread .nil)))) pop_ret

theorem write_inode_block_rises : Rises 3 write_inode_block := by
  have hnumber : Body 3 1 1 (.call get_disk_block_number) :=
    .call get_disk_block_number_rises (by decide)
  have hwrite : Body 3 1 1 (.call write_disk_block) := .call write_disk_block_rises (by decide)
  exact .proc (.cons (.push (by decide)) (.cons hnumber (.cons hwrite (.cons .pop .nil))))

theorem read_inode_filedata_rises : Rises 4 read_inode_filedata := by
  have hread : Body 4 1 1 (.call read_inode_block) := .call read_inode_block_rises (by decide)
  exact .func (.cons (.push (by decide)) (.cons (.loop (.cons hread (.cons del_body .nil))) .nil))
    pop_ret

theorem write_inode_filedata_rises : Rises 4 write_inode_filedata := by
  have hread : Body 4 1 1 (.call read_inode_block) := .call read_inode_block_rises (by decide)
  have hwrite : Body 4 1 1 (.call write_inode_block) := .call write_inode_block_rises (by decide)
  have hmeta : Body 4 1 1 (.call write_inode_metadata) :=
    .call write_inode_metadata_rises (by decide)
  refine .func (.cons (.push (by decide)) (.cons (.when hmeta) (.cons (.loop ?_) .nil))) .pop
  exact .cons hread (.cons hwrite (.cons del_body .nil))

theorem file_from_dirent_rises : Rises 1 file_from_dirent :=
  .func (.cons (.push (by decide)) (.cons new_body .nil)) pop_ret

section Directories

variable {Fs : List (Flow Mark)}

/-- What the walks over a directory do before their loops. -/
theorem walk_opening (hloop : Body 4 1 1 (.block Fs)) :
    Body 4 0 1 (.block (push_trace :: new :: .call read_inode_metadata :: Fs)) := by
  have hmeta : Body 4 1 1 (.call read_inode_metadata) := .call read_inode_metadata_rises (by decide)
  exact .cons (.push (by decide)) (.cons new_body (.cons hmeta hloop))

theorem read_inode_block_body : Body 4 1 1 (.call read_inode_block) :=
  .call read_inode_block_rises (by decide)

theorem write_inode_block_body : Body 4 1 1 (.call write_inode_block) :=
  .call write_inode_block_rises (by decide)

theorem ext2_listdir_rises : Rises 4 ext2_listdir := by
  have hround : Body 4 1 1 (.block [
      .when (.call read_inode_block), .when new, .when new, .when .leave]) :=
    .cons (.when read_inode_block_body) (.cons (.when new_body) (.cons (.when new_body)
      (.cons (.when .leave) .nil)))
  refine .func (walk_opening ?_) pop_ret
  exact .cons new_body (.cons read_inode_block_body (.cons (.loop hround) .nil))

/-- The pop comes before the call of `file_from_dirent`, and no other behind it. -/
theorem ext2_finddir_rises : Rises 4 ext2_finddir := by
  have hmeta : Body 4 1 1 (.call read_inode_metadata) := .call read_inode_metadata_rises (by decide)
  have hfile : Body 4 0 0 (.call file_from_dirent) := .call file_from_dirent_rises (by decide)
  have hfound : Body 4 1 1 (.block [
      new, .call read_inode_metadata, pop_trace, .call file_from_dirent, .ret]) :=
    .cons new_body (.cons hmeta (.cons .pop (.cons hfile (.cons .ret .nil))))
  have hround : Body 4 1 1 (.block [
      .when (.call read_inode_block), new, .when (.block [
        new, .call read_inode_metadata, pop_trace, .call file_from_dirent, .ret]),
      .when .leave]) :=
    .cons (.when read_inode_block_body) (.cons new_body (.cons (.when hfound)
      (.cons (.when .leave) .nil)))
  refine .func (walk_opening ?_) pop_ret
  exact .cons read_inode_block_body (.cons (.loop hround) .nil)

theorem ext2_create_entry_rises : Rises 4 ext2_create_entry := by
  have hplaced : Body 4 1 1 (.block [
      .call write_inode_block, .when (.call read_inode_block), .call write_inode_block, pop_trace,
      .ret]) :=
    .cons write_inode_block_body (.cons (.when read_inode_block_body)
      (.cons write_inode_block_body pop_ret))
  have hround : Body 4 1 1 (.block [
      .when (.call read_inode_block),
      .when (.when (.block [pop_trace, .ret])),
      .when (.block [
        .call write_inode_block, .when (.call read_inode_block), .call write_inode_block, pop_trace,
        .ret]),
      .when .next]) :=
    .cons (.when read_inode_block_body) (.cons (.when (.when pop_ret)) (.cons (.when hplaced)
      (.cons (.when .next) .nil)))
  refine .func (walk_opening ?_) .pop
  exact .cons new_body (.cons read_inode_block_body (.cons (.loop hround) .nil))

theorem ext2_remove_entry_rises : Rises 4 ext2_remove_entry := by
  have hround : Body 4 1 1 (.block [
      .when (.call read_inode_block),
      .when (.when (.block [.call write_inode_block, pop_trace, .ret])),
      .when (.block [pop_trace, .ret])]) :=
    .cons (.when read_inode_block_body) (.cons (.when (.when (.cons write_inode_block_body pop_ret)))
      (.cons (.when pop_ret) .nil))
  refine .func (walk_opening ?_) .pop
  exact .cons new_body (.cons read_inode_block_body (.cons (.loop hround) .nil))

end Directories

theorem ext2_read_rises : Rises 5 ext2_read := by
  have hmeta : Body 5 1 1 (.call read_inode_metadata) := .call read_inode_metadata_rises (by decide)
  have hdata : Body 5 1 1 (.call read_inode_filedata) := .call read_inode_filedata_rises (by decide)
  exact .func (.cons (.push (by decide)) (.cons new_body (.cons hmeta (.cons hdata .nil)))) pop_ret

theorem ext2_write_rises : Rises 5 ext2_write := by
  have hmeta : Body 5 1 1 (.call read_inode_metadata) := .call read_inode_metadata_rises (by decide)
  have hdata : Body 5 1 1 (.call write_inode_filedata) :=
    .call write_inode_filedata_rises (by decide)
  exact .func (.cons (.push (by decide)) (.cons new_body (.cons hmeta (.cons hdata .nil)))) pop_ret

theorem ext2_open_rises (file : FILE) : Rises 6 (ext2_open file) := by
  have hread : Body 6 1 1 (.call ext2_read) := .call ext2_read_rises (by decide)
  have hopen : Body 6 1 1 (if file.file_buffer = NULL then .block [new, .call ext2_read] else .skip) := by
    split
    · exact .cons new_body (.cons hread .nil)
    · exact .skip
  exact .func (.cons (.push (by decide)) (.cons hopen .nil)) .pop

/-- It has no mark of its own. -/
theorem ext2_close_rises (file : FILE) : Rises 0 (ext2_close file) := by
  have hdel : Body 0 0 0 (if file.file_buffer ≠ NULL then del else .skip) := by
    split
    · exact del_body
    · exact .skip
  exact .proc (.cons hdel (.cons .ret .nil))

theorem write_bgd_rises : Rises 1 write_bgd :=
  .proc (.loop_call write_disk_block_rises (by decide))

theorem ext2_alloc_block_rises : Rises 2 ext2_alloc_block := by
  have hread : Body 2 1 1 (.call read_disk_block) := .call read_disk_block_rises (by decide)
  have hwrite : Body 2 1 1 (.call write_disk_block) := .call write_disk_block_rises (by decide)
  have hbgd : Body 2 1 1 (.call write_bgd) := .call write_bgd_rises (by decide)
  have hbits : Body 2 1 1 (.loop (.when (.block [
      .call write_disk_block, .call write_bgd, pop_trace, .ret]))) :=
    .loop (.when (.cons hwrite (.cons hbgd pop_ret)))
  have hwords : Body 2 1 1 (.loop (.block [.when .next, .loop (.when (.block [
      .call write_disk_block, .call write_bgd, pop_trace, .ret]))])) :=
    .loop (.cons (.when .next) (.cons hbits .nil))
  refine .func (.cons (.push (by decide)) (.cons new_body (.cons (.loop ?_) .nil))) pop_ret
  exact .cons (.when .next) (.cons hread (.cons hwords .nil))

theorem fs_open_rises (file : Option FILE) : Rises 7 (fs_open file) := by
  cases file with
  | none => exact .proc (.cons (.push (by decide)) (.cons pop_ret .nil))
  | some f =>
      have hopen : Body 7 1 1 (.call (ext2_open f)) := .call (ext2_open_rises f) (by decide)
      exact .proc (.cons (.push (by decide)) (.cons (.cons hopen (.cons .pop .nil)) .nil))

theorem f_write_rises (file : Option FILE) : Rises 6 (f_write file) := by
  cases file with
  | none => exact .proc (.cons (.push (by decide)) (.cons pop_ret .nil))
  | some f =>
      have hwrite : Body 6 1 1 (.call ext2_write) := .call ext2_write_rises (by decide)
      exact .proc (.cons (.push (by decide)) (.cons (.cons hwrite pop_ret) .nil))

/-! ## `f_read` and `f_close` -/

theorem f_read_rises {f : FILE} {size : UInt32} (h : ¬ f.size < size + f.cur_offset) :
    Rises 8 (f_read (some f) size) := by
  have hopens : Body 8 1 1 (.call (fs_open (some f))) := .call (fs_open_rises _) (by decide)
  have hopen : Body 8 1 1 (if f.file_buffer = NULL then .call (fs_open (some f)) else .skip) := by
    split
    · exact hopens
    · exact .skip
  have hpass : Body 8 1 1 (if size + f.cur_offset > f.size then .ret else .skip) := by
    rw [if_neg h]
    exact .skip
  exact .proc (.cons (.push (by decide)) (.cons (.cons hpass (.cons hopen pop_ret)) .nil))

theorem f_close_rises {f : FILE} (h : f.refcount ≠ -1) : Rises 1 (f_close (some f)) := by
  have hpass : Body 1 1 1 (if f.refcount = -1 then .ret else .skip) := by
    rw [if_neg h]
    exact .skip
  have hclose : Body 1 1 1 (if i32 (f.refcount - 1) = 0 then .call (ext2_close f) else .skip) := by
    split
    · exact .call (ext2_close_rises f) (by decide)
    · exact .skip
  exact .proc (.cons (.push (by decide)) (.cons (.cons hpass (.cons hclose (.cons .pop .nil))) .nil))

end Rises

end Trace
end Fs
end EmbeddedOS
