import Xv7.Log.Reservation
import Xv7.Fs.Drop
import Xv7.Mkfs.Links
import Xv7.Pipe.Wakeup
import Xv7.Proc.Clean
import Xv7.Proc.Sigreturn
import Xv7.Proc.Kill
import Xv7.Proc.Spinlock
import Xv7.Icache.Safety
import Xv7.Bio.Ops
import Xv7.Sys.Balance
import Xv7.Sys.Failed
import Xv7.Sys.Symlinks
import Xv7.Sys.OnDisk
import Xv7.Console.Discipline
import Xv7.Fs.WriteThrough
import Xv7.File.Fresh
import Xv7.Ide.Queue
import Xv7.Umalloc.Program
import Xv7.Umalloc.Sbrk
import Xv7.Log.Ephemeral
import Xv7.Fs.Transaction
import Xv7.Syscall.Descriptor
import Xv7.Mp.Scan
import Xv7.Ulib.Fgets
import Xv7.Time.Clock
import Xv7.Sh.Words
import Xv7.Sh.Redirect
import Xv7.Ulib.Strings
import Xv7.Ulib.Strtonum
import Xv7.Ulib.Readdir
