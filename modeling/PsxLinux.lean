import PsxLinux.Blk.RunTheorems
import PsxLinux.Bootmem.RunTheorems
import PsxLinux.Bu.CompletionTheorems
import PsxLinux.Bu.QueueTheorems
import PsxLinux.Buddy.CallTheorems
import PsxLinux.Cred.SetuidTheorems
import PsxLinux.Elf2psx.RejectTheorems
import PsxLinux.Ext2.BlockRunTheorems
import PsxLinux.Ext2.IallocTheorems
import PsxLinux.Flat.ArithTheorems
import PsxLinux.Flat.RelocTheorems
import PsxLinux.Locks.Mandatory
import PsxLinux.MathEmu.ConvertTheorems
import PsxLinux.MathEmu.FlowTheorems
import PsxLinux.MathEmu.InexactTheorems
import PsxLinux.MathEmu.IsolationTheorems
import PsxLinux.Mips.BranchTheorems
import PsxLinux.Mmap.CallTheorems
import PsxLinux.NTty.RunTheorems
import PsxLinux.Partitions.Msdos
import PsxLinux.Printk.ReadTheorems
import PsxLinux.Proc.Session
import PsxLinux.Psxcon.ScreenTheorems
import PsxLinux.Resource.RunTheorems
import PsxLinux.Sched.RunTheorems
import PsxLinux.Sema.RwProgress
import PsxLinux.Serial.Write
import PsxLinux.Signal.RunTheorems
import PsxLinux.Slab.RunTheorems
import PsxLinux.Timer.Itimer
import PsxLinux.Timer.RunTheorems
import PsxLinux.Vt.ControlTheorems
import PsxLinux.MathEmu.CauseTheorems
