import Rill.Assembly.Instr

/-!
# The image around the instructions

The text handed to the assembler: a flat ELF64 image with one loadable segment, a start that calls the
entry point and exits, the routine that prints a number, and then the instructions of the program.
-/

namespace Rill

namespace Assembly

/-- The lines before the instructions. -/
def preludeLines : List String :=
  ["BITS 64",
   "org 0x400000",
   "",
   "ehdr:",
   "    db 0x7F, \"ELF\", 2, 1, 1, 0",
   "    times 8 db 0",
   "    dw 2                    ; e_type: executable",
   "    dw 0x3E                 ; e_machine: x86-64",
   "    dd 1                    ; e_version",
   "    dq _start               ; e_entry",
   "    dq phdr - $$            ; e_phoff",
   "    dq 0                    ; e_shoff",
   "    dd 0                    ; e_flags",
   "    dw ehdrsize             ; e_ehsize",
   "    dw phdrsize             ; e_phentsize",
   "    dw 1                    ; e_phnum",
   "    dw 0                    ; e_shentsize",
   "    dw 0                    ; e_shnum",
   "    dw 0                    ; e_shstrndx",
   "ehdrsize equ $ - ehdr",
   "",
   "phdr:",
   "    dd 1                    ; p_type: PT_LOAD",
   "    dd 7                    ; p_flags: rwx",
   "    dq 0                    ; p_offset",
   "    dq $$                   ; p_vaddr",
   "    dq $$                   ; p_paddr",
   "    dq filesize             ; p_filesz",
   "    dq filesize             ; p_memsz",
   "    dq 0x1000               ; p_align",
   "phdrsize equ $ - phdr",
   "",
   "_start:",
   "    call fn_main",
   "    mov rax, 60             ; exit",
   "    xor rdi, rdi",
   "    syscall",
   "",
   "; print_u64(rdi): write the decimal digits of rdi to stdout.",
   "; Digits are built backwards in the red zone below rsp.",
   "print_u64:",
   "    mov rax, rdi",
   "    lea rsi, [rsp - 1]",
   "    mov rcx, 10",
   "    xor r8, r8",
   ".digit:",
   "    xor rdx, rdx",
   "    div rcx",
   "    add dl, '0'",
   "    mov [rsi], dl",
   "    dec rsi",
   "    inc r8",
   "    test rax, rax",
   "    jnz .digit",
   "    inc rsi",
   "    mov rax, 1              ; write",
   "    mov rdi, 1",
   "    mov rdx, r8",
   "    syscall",
   "    ret",
   ""]

/-- The lines after the instructions. -/
def epilogueLines : List String :=
  ["",
   "filesize equ $ - $$"]

/-- The complete text, one line for each instruction. -/
def imageText (instrs : List Instr) : String :=
  String.join ((preludeLines ++ instrs.map Instr.text ++ epilogueLines).map (· ++ "\n"))

end Assembly

end Rill
