import PowerApi.Api.Sysfiles

open Execution Printf

namespace pwrapi.x86

def PROCFS : List Char := "/proc".toList
def SYSFS_KERNEL : List Char := "/sys/kernel/pm_api".toList
def SYSFS_CPU : List Char := "/sys/devices/system/cpu".toList
def SYSFS_PM_CNTRS : List Char := "/sys/cray/pm_counters".toList
def SYSFS_RAPL : List Char := "/sys/class/powercap/intel-rapl".toList
def SYSFS_HWMON : List Char := "/sys/class/hwmon".toList

/-- An entry of the catalog with the default path of its key. -/
def ini (key : String) (dir : List Char) (path : String) : Sysentry := ⟨key.toList, dir ++ path.toList⟩

/-- The system files catalog of the x86 plugin. -/
def x86_sysfile_catalog : List Sysentry := [
  ini "num_cstates_path" SYSFS_KERNEL "/num_cstates",
  ini "cstate_limit_path" SYSFS_KERNEL "/cstate_limit",
  ini "cstate_latency_path" SYSFS_CPU "/cpu0/cpuidle/state%d/latency",
  ini "avail_freqs_path" SYSFS_CPU "/cpu0/cpufreq/scaling_available_frequencies",
  ini "curr_freq_path" SYSFS_CPU "/cpu0/cpufreq/scaling_cur_freq",
  ini "max_freq_path" SYSFS_CPU "/cpu0/cpufreq/scaling_max_freq",
  ini "min_freq_path" SYSFS_CPU "/cpu0/cpufreq/scaling_min_freq",
  ini "kernel_max_path" SYSFS_CPU "/kernel_max",
  ini "cpu_possible_path" SYSFS_CPU "/possible",
  ini "cpu_present_path" SYSFS_CPU "/present",
  ini "cpu_online_path" SYSFS_CPU "/online",
  ini "procfs_cpuinfo" PROCFS "/cpuinfo",
  ini "procfs_cname" PROCFS "/cray_xt/cname",
  ini "procfs_nid" PROCFS "/cray_xt/nid",
  ini "sysfs_kernel" SYSFS_KERNEL "",
  ini "sysfs_cpu" SYSFS_CPU "",
  ini "sysfs_pm_cntrs" SYSFS_PM_CNTRS "",
  ini "sysfs_rapl" SYSFS_RAPL "",
  ini "sysfs_hwmon" SYSFS_HWMON "",
  ini "node_power_path" SYSFS_PM_CNTRS "/power",
  ini "node_power_cap_path" SYSFS_PM_CNTRS "/power_cap",
  ini "node_energy_path" SYSFS_PM_CNTRS "/energy",
  ini "node_cpu_power_path" SYSFS_PM_CNTRS "/cpu_power",
  ini "node_cpu_energy_path" SYSFS_PM_CNTRS "/cpu_energy",
  ini "node_mem_power_path" SYSFS_PM_CNTRS "/memory_power",
  ini "node_mem_energy_path" SYSFS_PM_CNTRS "/memory_energy",
  ini "node_update_rate_path" SYSFS_PM_CNTRS "/raw_scan_hz",
  ini "topology_path" SYSFS_CPU "/cpu%lu/topology/%s",
  ini "ht_freq_path" SYSFS_CPU "/cpu%lu/cpufreq/scaling_cur_freq",
  ini "ht_freq_req_path" SYSFS_CPU "/cpu%lu/cpufreq/scaling_setspeed",
  ini "ht_freq_limit_min_path" SYSFS_CPU "/cpu%lu/cpufreq/scaling_min_freq",
  ini "ht_freq_limit_max_path" SYSFS_CPU "/cpu%lu/cpufreq/scaling_max_freq",
  ini "ht_freq_limit_list_path" SYSFS_CPU "/cpu%lu/cpufreq/scaling_available_frequencies",
  ini "ht_cstate_path" SYSFS_CPU "/cpu%lu/cpuidle",
  ini "ht_cstate_limit_path" SYSFS_CPU "/cpu%lu/cpuidle/state%lu/disable",
  ini "ht_governor_path" SYSFS_CPU "/cpu%lu/cpufreq/scaling_governor",
  ini "ht_governor_list_path" SYSFS_CPU "/cpu%lu/cpufreq/scaling_available_governors",
  ini "msr_path" SYSFS_CPU "/cpu%lu/msr/%xr",
  ini "msr_pkg_power_sku_unit_path" SYSFS_CPU "/cpu%lu/msr/606r",
  ini "msr_pkg_rapl_perf_status_path" SYSFS_CPU "/cpu%lu/msr/613r",
  ini "msr_ddr_rapl_perf_status_path" SYSFS_CPU "/cpu%lu/msr/61br",
  ini "rapl_pkg_name_path" SYSFS_RAPL "/intel-rapl:%lu/name",
  ini "rapl_sub_name_path" SYSFS_RAPL "/intel-rapl:%lu/intel-rapl:%lu:%lu/name",
  ini "rapl_pkg_energy_path" SYSFS_RAPL "/intel-rapl:%lu/energy_uj",
  ini "rapl_pkg_energy_max_path" SYSFS_RAPL "/intel-rapl:%lu/max_energy_range_uj",
  ini "rapl_sub_energy_path" SYSFS_RAPL "/intel-rapl:%lu/intel-rapl:%lu:%lu/energy_uj",
  ini "rapl_sub_energy_max_path" SYSFS_RAPL "/intel-rapl:%lu/intel-rapl:%lu:%lu/max_energy_range_uj",
  ini "rapl_pkg_power_limit_path" SYSFS_RAPL "/intel-rapl:%lu/constraint_0_power_limit_uw",
  ini "rapl_pkg_power_limit_max_path" SYSFS_RAPL "/intel-rapl:%lu/constraint_0_max_power_uw",
  ini "rapl_sub_power_limit_path" SYSFS_RAPL "/intel-rapl:%lu/intel-rapl:%lu:%lu/constraint_0_power_limit_uw",
  ini "rapl_sub_power_limit_max_path" SYSFS_RAPL "/intel-rapl:%lu/intel-rapl:%lu:%lu/constraint_0_max_power_uw",
  ini "rapl_pkg_time_window_path" SYSFS_RAPL "/intel-rapl:%lu/constraint_0_time_window_us",
  ini "rapl_sub_time_window_path" SYSFS_RAPL "/intel-rapl:%lu/intel-rapl:%lu:%lu/constraint_0_time_window_us"]

/-- A literal is spelled out without decoding it. -/
theorem toList_of_literal {s : String} {l : List Char} (h : s = String.ofList l) : s.toList = l := by
  subst h
  exact String.toList_ofList

theorem x86_sysfile_catalog_checked :
    (x86_sysfile_catalog.map Sysentry.key).Nodup ∧
      ∀ t ∈ x86_sysfile_catalog, Simple t.val ∧ t.val.head? = some '/' := by
  unfold x86_sysfile_catalog ini PROCFS SYSFS_KERNEL SYSFS_CPU SYSFS_PM_CNTRS SYSFS_RAPL SYSFS_HWMON
  repeat rw [toList_of_literal rfl]
  decide +kernel

theorem x86_sysfile_catalog_builtIn : BuiltIn x86_sysfile_catalog where
  distinct := x86_sysfile_catalog_checked.1
  simple t ht := (x86_sysfile_catalog_checked.2 t ht).1
  absolute t ht := List.head?_eq_some_iff.mp (x86_sysfile_catalog_checked.2 t ht).2

/-- However often and with whatever files the catalog is configured, each path takes
the same arguments as the built-in path of its key exactly when every chroot that is put
before a path takes none. -/
theorem x86_sysfiles_wellTyped_iff (run : List (Option (List (List Char)) × Sysfiles))
    (hrun : EachStep (fun s file s' => s' = configure_sysfiles file s) { catalog := x86_sysfile_catalog } run) :
    (∀ x ∈ run, WellTyped x86_sysfile_catalog x.2.catalog) ↔
      EachStep (fun _ file _ => HarmlessChroot x86_sysfile_catalog file) { catalog := x86_sysfile_catalog } run :=
  x86_sysfile_catalog_builtIn.wellTyped_iff hrun

/-- A file that sets the path of one key and puts a chroot before the others. -/
def chroot_file (root : String) : Option (List (List Char)) :=
  some ["# paths for testing".toList, "node_power_path = /tmp/power".toList, ("chroot = " ++ root).toList]

/-- The run that configures the catalog from each file in turn. -/
def configured (files : List (Option (List (List Char)))) : List (Option (List (List Char)) × Sysfiles) :=
  run_of (fun file s => some (configure_sysfiles file s)) files { catalog := x86_sysfile_catalog }

theorem configured_steps (files : List (Option (List (List Char)))) :
    EachStep (fun s file s' => s' = configure_sysfiles file s) { catalog := x86_sysfile_catalog } (configured files) :=
  (eachStep_run_of _ _ _).imp fun _ _ _ h => (Option.some.inj h).symm

theorem x86_sysfiles_wellTyped_iff_tmp :
    (configured [chroot_file "/tmp/", none, chroot_file "/tmp/100%%"]).length = 3 ∧
      ∀ x ∈ configured [chroot_file "/tmp/", none, chroot_file "/tmp/100%%"],
        WellTyped x86_sysfile_catalog x.2.catalog := by
  have htmp : ∀ lines ∈ chroot_file "/tmp/", ∀ root ∈ (roots lines).getLast?, conversions root = some [] := by
    decide +kernel
  have hpercent : ∀ lines ∈ chroot_file "/tmp/100%%", ∀ root ∈ (roots lines).getLast?, conversions root = some [] := by
    decide +kernel
  refine ⟨rfl, (x86_sysfiles_wellTyped_iff _ (configured_steps _)).mpr ⟨?_, ?_, ?_, trivial⟩⟩
  · exact fun lines hlines _ root hroot _ => htmp lines hlines root hroot
  · exact fun lines hlines => nomatch hlines
  · exact fun lines hlines _ root hroot _ => hpercent lines hlines root hroot

/-- A chroot with a conversion of its own makes every default path behind it take one argument more. -/
theorem x86_chroot_takes_argument :
    ¬∀ run : List (Option (List (List Char)) × Sysfiles),
      EachStep (fun s file s' => s' = configure_sysfiles file s) { catalog := x86_sysfile_catalog } run →
        ∀ x ∈ run, WellTyped x86_sysfile_catalog x.2.catalog := by
  intro hall
  have htyped := hall _ (configured_steps [some ["chroot = /tmp/%s".toList]]) _ List.mem_cons_self
  have hfirst := (List.forall₂_cons.mp htyped).1.2
  exact absurd hfirst (by decide +kernel)

end pwrapi.x86
